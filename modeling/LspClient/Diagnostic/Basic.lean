import LspClient.Path

/-!
# Diagnostics

A diagnostic points at a range of a text. Lines and columns are 32-bit words that count from zero,
columns in UTF-16 units; `line` shows a diagnostic the way an editor does, counting from one.
Severities are ordered from the worst on.
-/

namespace LspClient

inductive Severity where
  | error
  | warning
  | information
  | hint
  deriving DecidableEq, Repr, Inhabited

namespace Severity

/-- The severity that the protocol writes as `n`. -/
def ofNat? : Nat → Option Severity
  | 1 => some .error
  | 2 => some .warning
  | 3 => some .information
  | 4 => some .hint
  | _ => none

def rank : Severity → Nat
  | .error => 1
  | .warning => 2
  | .information => 3
  | .hint => 4

def label : Severity → String
  | .error => "error"
  | .warning => "warning"
  | .information => "info"
  | .hint => "hint"

end Severity

structure Position where
  line : UInt32
  character : UInt32
  deriving DecidableEq, Repr, Inhabited

namespace Position

/-- Lexicographic order, lines first. -/
protected def le (p q : Position) : Bool :=
  p.line < q.line || (p.line == q.line && p.character ≤ q.character)

end Position

structure Range where
  start : Position
  stop : Position
  deriving DecidableEq, Repr, Inhabited

structure Diagnostic where
  severity : Severity
  message : String
  range : Range
  /-- Who reports it. -/
  source : String
  code : Option String
  tags : List Nat
  deriving DecidableEq, Repr, Inhabited

namespace Diagnostic

def codeSuffix : Option String → String
  | some code => s!" ({code})"
  | none => ""

/-- The diagnostic as a line of a report on `path`. -/
def line (d : Diagnostic) (path : Path) : String :=
  let start := d.range.start
  s!"{path}:{start.line + 1}:{start.character + 1}: {d.severity.label}: " ++
    s!"[{d.source}] {d.message}" ++ codeSuffix d.code

end Diagnostic

end LspClient
