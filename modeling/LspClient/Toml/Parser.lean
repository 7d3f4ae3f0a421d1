import LspClient.Toml.Scalar
import LspClient.Toml.Table

/-!
# Reading TOML

`parse` reads a document of TOML 1.1 into a JSON value. Arrays and inline tables nest at most
`maxDepth` deep. An infinite number, and one that is none, is left in the value as it is.

As in the reader of JSON, `element` reads the items of the container at hand, and `fuel` bounds
their number.
-/

namespace LspClient.Toml

/-- What follows blanks, line breaks and comments. -/
def skipGap : (inComment : Bool) → List Char → Option (List Char)
  | _, [] => some []
  | _, '\n' :: rest => skipGap false rest
  | _, '\r' :: '\n' :: rest => skipGap false rest
  | true, c :: rest => if isPlain c then skipGap true rest else none
  | false, c :: rest =>
    if isBlank c then skipGap false rest
    else if c = '#' then skipGap true rest
    else some (c :: rest)

/-! ### Values -/

/-- Items up to the closing bracket, a comma being allowed behind the last one. -/
def items (element : List Char → Option (Json × List Char)) :
    Nat → List Json → List Char → Option (List Json × List Char)
  | 0, _, _ => none
  | fuel + 1, acc, cs =>
    match skipGap false cs with
    | none => none
    | some (']' :: rest) => some (acc.reverse, rest)
    | some cs =>
      match element cs with
      | none => none
      | some (v, rest) =>
        match skipGap false rest with
        | some (',' :: rest) => items element fuel (v :: acc) rest
        | some (']' :: rest) => some ((v :: acc).reverse, rest)
        | _ => none

/-- The members of an inline table up to the closing brace, likewise. -/
def members (element : List Char → Option (Json × List Char)) :
    Nat → Entries → List Char → Option (Entries × List Char)
  | 0, _, _ => none
  | fuel + 1, acc, cs =>
    match skipGap false cs with
    | none => none
    | some ('}' :: rest) => some (acc, rest)
    | some cs =>
      match key cs with
      | some (path, '=' :: rest) =>
        match element (dropBlank rest) with
        | none => none
        | some (v, rest) =>
          match assign v path acc, skipGap false rest with
          | some acc, some (',' :: rest) => members element fuel acc rest
          | some acc, some ('}' :: rest) => some (acc, rest)
          | _, _ => none
      | _ => none

/-- A value with at most `depth` levels of containers. -/
def value (fuel : Nat) : Nat → List Char → Option (Json × List Char)
  | depth, cs =>
    match cs with
    | '[' :: rest =>
      match depth with
      | 0 => none
      | depth + 1 =>
        (items (value fuel depth) fuel [] rest).map fun (xs, rest) => (.arr xs, rest)
    | '{' :: rest =>
      match depth with
      | 0 => none
      | depth + 1 =>
        (members (value fuel depth) fuel [] rest).map fun (es, rest) => (asObject es, rest)
    | cs =>
      match string? cs with
      | some s => s.map fun (s, rest) => (.str s, rest)
      | none => scalar cs

def maxDepth : Nat := 80

/-! ### Documents -/

/-- What has been read: the tables, and the path of the latest heading. -/
structure Document where
  root : Entries
  heading : List String

namespace Document

def empty : Document := ⟨[], []⟩

def set (d : Document) (path : List String) (v : Json) : Option Document :=
  (within (assign v path) d.heading d.root).map fun root => { d with root }

/-- Begin a table, or with `openItem` another table of an array. -/
def under (d : Document) (open_ : String → Entries → Option Entries) (path : List String) :
    Option Document :=
  match path.getLast? with
  | none => none
  | some key => (within (open_ key) path.dropLast d.root).map fun root => ⟨root, path⟩

end Document

/-- What follows a statement, which ends its line. -/
def nextLine (cs : List Char) : Option (List Char) :=
  match dropBlank cs with
  | [] => some []
  | '\n' :: rest => skipGap false rest
  | '\r' :: '\n' :: rest => skipGap false rest
  | '#' :: rest => skipGap true rest
  | _ => none

def statement (fuel : Nat) (d : Document) : List Char → Option (Document × List Char)
  | '[' :: '[' :: rest =>
    match key rest with
    | some (path, ']' :: ']' :: rest) => (d.under openItem path).map fun d => (d, rest)
    | _ => none
  | '[' :: rest =>
    match key rest with
    | some (path, ']' :: rest) => (d.under openTable path).map fun d => (d, rest)
    | _ => none
  | cs =>
    match key cs with
    | some (path, '=' :: rest) =>
      match value fuel maxDepth (dropBlank rest) with
      | some (v, rest) => (d.set path v).map fun d => (d, rest)
      | none => none
    | _ => none

def statements (fuel : Nat) : Nat → Document → List Char → Option Document
  | _, d, [] => some d
  | 0, _, _ => none
  | left + 1, d, cs =>
    match statement fuel d cs with
    | none => none
    | some (d, rest) =>
      match nextLine rest with
      | none => none
      | some rest => statements fuel left d rest

def byteOrderMark : Char := '\uFEFF'

def parseChars (cs : List Char) : Option Json :=
  let cs := match cs with
    | c :: rest => if c = byteOrderMark then rest else c :: rest
    | [] => []
  let fuel := cs.length + 1
  (skipGap false cs).bind fun cs =>
    (statements fuel fuel Document.empty cs).map fun d => asObject d.root

def parse (s : String) : Option Json := parseChars s.toList

end LspClient.Toml
