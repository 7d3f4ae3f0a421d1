import LspClient.Text.Utf8

/-!
# Scripts

The tree of a shell script. A word is put together from parts, which are expanded when the word is
used; a part remembers whether it stood in quotes. A command has redirections of its own.

To a shell a text is a sequence of bytes, whatever they mean. `Octets` holds each byte as the
character with its number, so that syntax is seen as it is written.
-/

namespace LspClient

/-! ### Octets -/

abbrev Octets := List Char

namespace Octets

def ofBytes (bytes : List UInt8) : Octets := bytes.map fun b => Char.ofNat b.toNat

def toBytes (cs : Octets) : List UInt8 := cs.map fun c => UInt8.ofNat c.toNat

/-- The bytes of a text. -/
def ofText (s : String) : Octets := ofBytes (Utf8.encode s)

def toText (cs : Octets) : String := Utf8.decodeLossy (toBytes cs)

def ofNat (n : Nat) : Octets := (toString n).toList

def ofInt (n : Int) : Octets := (toString n).toList

/-- The number that is written in decimal digits, a sign in front allowed. -/
def int? (cs : Octets) : Option Int :=
  let digits (ds : Octets) : Option Nat :=
    if ds ≠ [] ∧ ds.all Char.isDigit then some (ds.foldl (fun n d => n * 10 + (d.toNat - 48)) 0)
    else none
  match cs with
  | '-' :: ds => (digits ds).map fun n => -(n : Int)
  | '+' :: ds => (digits ds).map fun n => (n : Int)
  | ds => (digits ds).map fun n => (n : Int)

def nat? (cs : Octets) : Option Nat :=
  match int? cs with
  | some n => if 0 ≤ n then some n.toNat else none
  | none => none

/-- The lines of a text. A newline ends a line, so that there is none behind the last newline. -/
def linesFrom : Octets → List Octets → Octets → List Octets
  | [], acc, [] => acc.reverse
  | line, acc, [] => (line.reverse :: acc).reverse
  | line, acc, c :: rest =>
    if c = '\n' then linesFrom [] (line.reverse :: acc) rest else linesFrom (c :: line) acc rest

def lines (cs : Octets) : List Octets := linesFrom [] [] cs

def unlines (ls : List Octets) : Octets := ls.flatMap fun l => l ++ ['\n']

/-- Octets in the order of their bytes. -/
def before : Octets → Octets → Bool
  | [], _ => true
  | _ :: _, [] => false
  | a :: as, b :: bs => a.toNat < b.toNat || (a == b && before as bs)

end Octets

end LspClient

namespace LspClient.Shell

/-! ### The tree -/

/-- What is done with the value of a parameter. `colon` makes an empty one count as unset. -/
inductive Treatment where
  | plain
  | length
  | orElse (colon : Bool)
  | orAssign (colon : Bool)
  | orFail (colon : Bool)
  | ifSet (colon : Bool)
  | trimFront (longest : Bool)
  | trimEnd (longest : Bool)
  deriving DecidableEq, Repr

inductive RedirectKind where
  | input
  | output
  | append
  | duplicate
  deriving DecidableEq, Repr

mutual
inductive Part where
  | text (cs : Octets) (quoted : Bool)
  | parameter (name : Octets) (treatment : Treatment) (word : List Part) (quoted : Bool)
  /-- What a script writes. -/
  | outputOf (script : List Statement) (quoted : Bool)
  | arithmetic (expression : List Part) (quoted : Bool)

inductive Redirect where
  | mk (channel : Nat) (kind : RedirectKind) (target : List Part)

inductive Command where
  | simple (assignments : List (Octets × List Part)) (words : List (List Part))
      (redirects : List Redirect)
  | group (body : List Statement) (redirects : List Redirect)
  | subshell (body : List Statement) (redirects : List Redirect)
  | choose (branches : List (List Statement × List Statement)) (otherwise : List Statement)
      (redirects : List Redirect)
  /-- Repeat as long as the test has the outcome `goal`. -/
  | loop (goal : Bool) (test body : List Statement) (redirects : List Redirect)
  /-- Repeat for each word; without words for each argument. -/
  | each (name : Octets) (words : Option (List (List Part))) (body : List Statement)
      (redirects : List Redirect)
  | select (word : List Part) (arms : List (List (List Part) × List Statement))
      (redirects : List Redirect)
  | define (name : Octets) (body : Command)

inductive Pipeline where
  | mk (negated : Bool) (commands : List Command)

/-- Pipelines in sequence, each but the first run only after success (`true`) or failure of what
came before it. -/
inductive Statement where
  | mk (first : Pipeline) (rest : List (Bool × Pipeline)) (inBackground : Bool)
end

abbrev Word := List Part

end LspClient.Shell
