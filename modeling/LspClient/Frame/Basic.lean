import LspClient.Json.Basic
import LspClient.Json.Parser
import LspClient.Text.Blank
import LspClient.Text.Quoted

/-!
# Frames

A JSON value travels as a frame: header lines, a blank line, and as many bytes of JSON as the
Content-Length header says. `Frame.write` builds one. `Frame.read` takes the first frame off a byte
list, which may be the beginning of a stream (`ended = false`); it then answers `more` as long as
the bytes at hand do not settle what comes first.

A frame whose body is not JSON, or too long, is taken off whole, so that the next one is found. All
other errors leave no place to go on from.
-/

namespace LspClient

/-- The part of a frame in which a stream ended. -/
inductive FramePart where
  | headers
  | body
  deriving DecidableEq, Repr

inductive FrameError where
  | invalidHeader (m : Utf8.Malformed)
  | unexpectedEnd (part : FramePart)
  | missingLength
  | invalidLength (value : String)
  | oversized (length : Nat)
  | invalidBody
  deriving DecidableEq, Repr

namespace Frame

def maxBytes : Nat := 16777216

end Frame

namespace FrameError

def message : FrameError → String
  | .invalidHeader m => "reading header line: " ++ m.message
  | .unexpectedEnd .headers => "unexpected EOF while reading headers"
  | .unexpectedEnd .body => "unexpected EOF while reading frame body"
  | .missingLength => "missing Content-Length header"
  | .invalidLength value => "invalid Content-Length value: " ++ Text.quoted value
  | .oversized n => s!"Content-Length {n} exceeds maximum {Frame.maxBytes}"
  | .invalidBody => "invalid JSON-RPC body"

/-- Whether the bytes that follow begin a frame. -/
def isRecoverable : FrameError → Bool
  | .oversized _ => true
  | .invalidBody => true
  | _ => false

end FrameError

namespace Frame

/-! ### Writing -/

def header (length : Nat) : String := s!"Content-Length: {length}\r\n\r\n"

def write (v : Json) : List UInt8 :=
  let body := Utf8.encode v.compact
  Utf8.encode (header body.length) ++ body

/-! ### Header lines -/

def parseDigits (limit : Nat) : Nat → List Char → Option Nat
  | n, [] => some n
  | n, c :: rest =>
    if Json.isDigit c then
      let next := n * 10 + Json.digitValue c
      if next ≤ limit then parseDigits limit next rest else none
    else none

/-- A decimal number of at most 64 bits, with a plus sign if it likes. -/
def parseLength (cs : List Char) : Option Nat :=
  match cs with
  | '+' :: d :: rest => parseDigits Json.maxWord 0 (d :: rest)
  | '+' :: [] => none
  | [] => none
  | cs => parseDigits Json.maxWord 0 cs

/-- A list cut around its first colon. -/
def splitColon (cs : List Char) : Option (List Char × List Char) :=
  match cs.dropWhile (· ≠ ':') with
  | _ :: value => some (cs.takeWhile (· ≠ ':'), value)
  | [] => none

def lengthKey : List Char := "content-length".toList

/-- What one header line means. -/
inductive Line where
  | blank
  | length (n : Nat)
  | other
  | bad (e : FrameError)

def readLine (bytes : List UInt8) : Line :=
  match Utf8.decodeChars bytes with
  | .error m => .bad (.invalidHeader m)
  | .ok cs =>
    match Text.trimChars cs with
    | [] => .blank
    | cs =>
      match splitColon cs with
      | none => .other
      | some (key, value) =>
        if (Text.trimChars key).map Char.toLower = lengthKey then
          let value := Text.trimChars value
          match parseLength value with
          | some n => .length n
          | none => .bad (.invalidLength (String.ofList value))
        else .other

/-! ### Reading -/

/-- The headers of a frame, as far as they go. -/
inductive Headers where
  /-- The blank line is read. -/
  | complete (length : Option Nat) (rest : List UInt8)
  | failed (e : FrameError)
  | ended
  | more

/-- Read header lines. `line` is the line under way, last byte first, `seen` whether a line came
before it, and `length` the last Content-Length so far. A stream may end without a line feed. -/
def readHeaders (ended : Bool) (seen : Bool) (length : Option Nat) (line : List UInt8) :
    List UInt8 → Headers
  | [] =>
    if !ended then .more
    else if line.isEmpty then if seen then .failed (.unexpectedEnd .headers) else .ended
    else
      match readLine line.reverse with
      | .blank => .complete length []
      | .bad e => .failed e
      | _ => .failed (.unexpectedEnd .headers)
  | b :: rest =>
    if b = 10 then
      match readLine (b :: line).reverse with
      | .blank => .complete length rest
      | .length n => readHeaders ended true (some n) [] rest
      | .other => readHeaders ended true length [] rest
      | .bad e => .failed e
    else readHeaders ended seen length (b :: line) rest

/-- The bytes behind the first `n`, if there are that many. -/
def skip? : Nat → List UInt8 → Option (List UInt8)
  | 0, bytes => some bytes
  | _ + 1, [] => none
  | n + 1, _ :: rest => skip? n rest

inductive Read where
  | frame (v : Json) (rest : List UInt8)
  | failed (e : FrameError) (rest : List UInt8)
  /-- The stream ended between frames. -/
  | ended
  /-- More bytes are needed to tell. -/
  | more

/-- Read a body of `length` bytes. -/
def readBody (ended : Bool) (length : Nat) (bytes : List UInt8) : Read :=
  match skip? length bytes with
  | none => if ended then .failed (.unexpectedEnd .body) [] else .more
  | some rest =>
    if length > maxBytes then .failed (.oversized length) rest
    else
      match Json.parseBytes (bytes.take length) with
      | some v => .frame v rest
      | none => .failed .invalidBody rest

def read (ended : Bool) (bytes : List UInt8) : Read :=
  match readHeaders ended false none [] bytes with
  | .complete (some length) rest => readBody ended length rest
  | .complete none rest => .failed .missingLength rest
  | .failed e => .failed e []
  | .ended => .ended
  | .more => .more

/-- One reading of a stream. -/
inductive Event where
  | frame (v : Json)
  | failed (e : FrameError)
  | ended

/-- Everything a finished stream holds, up to its end or the first error that cannot be passed. -/
def readAll : Nat → List UInt8 → List Event
  | 0, _ => []
  | fuel + 1, bytes =>
    match read true bytes with
    | .frame v rest => .frame v :: readAll fuel rest
    | .failed e rest => .failed e :: if e.isRecoverable then readAll fuel rest else []
    | .ended => [.ended]
    | .more => []

def events (bytes : List UInt8) : List Event := readAll (bytes.length + 1) bytes

end Frame

end LspClient
