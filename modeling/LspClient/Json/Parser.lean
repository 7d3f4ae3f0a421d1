import LspClient.Json.Decimal
import LspClient.Text.Utf8

/-!
# Parsing JSON

The grammar of RFC 8259 over a list of characters, with two limits: containers nest at most
`maxDepth - 1` deep, and a number out of range is refused. A member that occurs twice keeps its
last value.

`element` is the item parser of the container at hand, so the recursion is on the depth that is
left; `fuel` bounds the number of items and is the length of the whole text.
-/

namespace LspClient.Json

def isSpace (c : Char) : Bool := c = ' ' || c = '\n' || c = '\t' || c = '\r'

def skipSpace (cs : List Char) : List Char := cs.dropWhile isSpace

/-- What is left of `cs` after the literal `word`. -/
def literal (word cs : List Char) : Option (List Char) :=
  if word.isPrefixOf cs then some (cs.drop word.length) else none

/-! ### Strings -/

def hexValue (c : Char) : Option Nat :=
  if isDigit c then some (digitValue c)
  else if 'a' ≤ c && c ≤ 'f' then some (c.toNat - 'a'.toNat + 10)
  else if 'A' ≤ c && c ≤ 'F' then some (c.toNat - 'A'.toNat + 10)
  else none

def hexUnit : List Char → Option (Nat × List Char)
  | a :: b :: c :: d :: rest => do
    let a ← hexValue a
    let b ← hexValue b
    let c ← hexValue c
    let d ← hexValue d
    some (((a * 16 + b) * 16 + c) * 16 + d, rest)
  | _ => none

/-- The character of a `\u` escape, after the letter. A surrogate counts only as half of a pair. -/
def unicodeEscape (cs : List Char) : Option (Char × List Char) := do
  let (u, rest) ← hexUnit cs
  if 0xD800 ≤ u && u < 0xDC00 then
    match rest with
    | '\\' :: 'u' :: rest =>
      let (v, rest) ← hexUnit rest
      if 0xDC00 ≤ v && v < 0xE000 then
        some (Char.ofNat (0x10000 + (u - 0xD800) * 0x400 + (v - 0xDC00)), rest)
      else none
    | _ => none
  else if 0xDC00 ≤ u && u < 0xE000 then none
  else some (Char.ofNat u, rest)

def escape : List Char → Option (Char × List Char)
  | '"' :: rest => some ('"', rest)
  | '\\' :: rest => some ('\\', rest)
  | '/' :: rest => some ('/', rest)
  | 'b' :: rest => some ('\x08', rest)
  | 'f' :: rest => some ('\x0c', rest)
  | 'n' :: rest => some ('\n', rest)
  | 'r' :: rest => some ('\r', rest)
  | 't' :: rest => some ('\t', rest)
  | 'u' :: rest => unicodeEscape rest
  | _ => none

/-- The characters of a string after its opening quote, in reverse, and what follows it. -/
def stringBody : Nat → List Char → List Char → Option (List Char × List Char)
  | 0, _, _ => none
  | _, _, [] => none
  | fuel + 1, acc, c :: rest =>
    if c = '"' then some (acc, rest)
    else if c = '\\' then
      match escape rest with
      | some (e, rest) => stringBody fuel (e :: acc) rest
      | none => none
    else if c.toNat < 0x20 then none
    else stringBody fuel (c :: acc) rest

def string (fuel : Nat) (cs : List Char) : Option (String × List Char) :=
  (stringBody fuel [] cs).map fun (acc, rest) => (String.ofList acc.reverse, rest)

/-! ### Values -/

/-- Array items up to the closing bracket, the first item still to come. -/
def items (element : List Char → Option (Json × List Char)) :
    Nat → List Json → List Char → Option (List Json × List Char)
  | 0, _, _ => none
  | fuel + 1, acc, cs =>
    match element cs with
    | none => none
    | some (v, rest) =>
      match skipSpace rest with
      | ',' :: rest => items element fuel (v :: acc) rest
      | ']' :: rest => some ((v :: acc).reverse, rest)
      | _ => none

/-- Members up to the closing brace, the first member still to come. -/
def members (fuel : Nat) (element : List Char → Option (Json × List Char)) :
    Nat → List (String × Json) → List Char → Option (List (String × Json) × List Char)
  | 0, _, _ => none
  | left + 1, acc, cs =>
    match skipSpace cs with
    | '"' :: rest =>
      match string fuel rest with
      | none => none
      | some (key, rest) =>
        match skipSpace rest with
        | ':' :: rest =>
          match element rest with
          | none => none
          | some (v, rest) =>
            let acc := insertEntry key v acc
            match skipSpace rest with
            | ',' :: rest => members fuel element left acc rest
            | '}' :: rest => some (acc, rest)
            | _ => none
        | _ => none
    | _ => none

/-- A value with at most `depth - 1` levels of containers, leading space skipped. -/
def value (fuel : Nat) : Nat → List Char → Option (Json × List Char)
  | depth, cs =>
    match skipSpace cs with
    | 'n' :: rest => (literal ['u', 'l', 'l'] rest).map fun rest => (.null, rest)
    | 't' :: rest => (literal ['r', 'u', 'e'] rest).map fun rest => (.bool true, rest)
    | 'f' :: rest => (literal ['a', 'l', 's', 'e'] rest).map fun rest => (.bool false, rest)
    | '"' :: rest => (string fuel rest).map fun (s, rest) => (.str s, rest)
    | '[' :: rest =>
      match depth with
      | 0 => none
      | 1 => none
      | depth + 2 =>
        match skipSpace rest with
        | ']' :: rest => some (.arr [], rest)
        | rest =>
          (items (value fuel (depth + 1)) fuel [] rest).map fun (xs, rest) => (.arr xs, rest)
    | '{' :: rest =>
      match depth with
      | 0 => none
      | 1 => none
      | depth + 2 =>
        match skipSpace rest with
        | '}' :: rest => some (.obj [], rest)
        | rest =>
          (members fuel (value fuel (depth + 1)) fuel [] rest).map fun (es, rest) => (.obj es, rest)
    | cs => (number cs).map fun (n, rest) => (.num n, rest)

def maxDepth : Nat := 128

def parseChars (cs : List Char) : Option Json :=
  match value (cs.length + 1) maxDepth cs with
  | some (v, rest) => if (skipSpace rest).isEmpty then some v else none
  | none => none

def parse (s : String) : Option Json := parseChars s.toList

/-- The value of a UTF-8 text. -/
def parseBytes (bytes : List UInt8) : Option Json :=
  (Utf8.decodeChars bytes).toOption.bind parseChars

end LspClient.Json
