import LspClient.Json.Binary64

/-!
# JSON values

An object is a list of entries, kept in the order of its keys with no key twice (`Json.object`
builds one from any list, a later entry replacing an earlier one of the same key). A number is an
integer of at most 64 bits or a double-precision number; the parser decides which.

JSON has no infinite numbers: `finite` puts null in the place of each number of a value that is
infinite or none at all. `mapText` changes every string of a value, the keys of objects included.

`compact` writes a value without white space, members in the order they are kept in. Quotes,
backslashes and control characters are escaped, everything else stands for itself.
-/

namespace LspClient

/-- An integer from `-2^63` to `2^64 - 1`, or a double-precision number. -/
inductive Json.Number where
  | int (n : Int)
  | float (x : Binary64)
  deriving DecidableEq, Repr, Inhabited

inductive Json where
  | null
  | bool (b : Bool)
  | num (n : Json.Number)
  | str (s : String)
  | arr (items : List Json)
  | obj (entries : List (String × Json))
  deriving Repr, Inhabited

namespace Json

/-- The entry list with `key` set to `value`, order and uniqueness of keys kept. -/
def insertEntry {α : Type} (key : String) (value : α) : List (String × α) → List (String × α)
  | [] => [(key, value)]
  | (k, v) :: rest =>
    if key = k then (key, value) :: rest
    else if key < k then (key, value) :: (k, v) :: rest
    else (k, v) :: insertEntry key value rest

/-- Entries in the order of their keys, the last of each key. -/
def sortEntries {α : Type} (entries : List (String × α)) : List (String × α) :=
  entries.foldl (fun acc e => insertEntry e.1 e.2 acc) []

def object (entries : List (String × Json)) : Json :=
  .obj (sortEntries entries)

def int (n : Int) : Json := .num (.int n)

def nat (n : Nat) : Json := .num (.int n)

def strings (items : List String) : Json := .arr (items.map .str)

def optional : Option Json → Json
  | some v => v
  | none => .null

/-! ### Looking inside -/

def entries? : Json → Option (List (String × Json))
  | .obj es => some es
  | _ => none

def get? (v : Json) (key : String) : Option Json :=
  match v with
  | .obj es => es.lookup key
  | _ => none

def str? : Json → Option String
  | .str s => some s
  | _ => none

def arr? : Json → Option (List Json)
  | .arr xs => some xs
  | _ => none

def bool? : Json → Option Bool
  | .bool b => some b
  | _ => none

def int? : Json → Option Int
  | .num (.int n) => some n
  | _ => none

/-- A natural number that fits 64 bits. -/
def nat? : Json → Option Nat
  | .num (.int n) => if 0 ≤ n then some n.toNat else none
  | _ => none

def isNull : Json → Bool
  | .null => true
  | _ => false

/-- The member `key`, null where there is none. -/
def member (v : Json) (key : String) : Json :=
  (v.get? key).getD .null

/-- Item `i` of an array, null where there is none. -/
def item (v : Json) (i : Nat) : Json :=
  match v with
  | .arr xs => (xs[i]?).getD .null
  | _ => .null

/-- `v` with the member `key` set, where `v` is an object. -/
def setMember (v : Json) (key : String) (value : Json) : Json :=
  match v with
  | .obj es => .obj (insertEntry key value es)
  | v => v

def eraseMember (v : Json) (key : String) : Json :=
  match v with
  | .obj es => .obj (es.filter fun e => e.1 != key)
  | v => v

/-! ### Values changed throughout -/

mutual
def finite : Json → Json
  | .num (.float x) => if x.isFinite then .num (.float x) else .null
  | .arr items => .arr (finiteItems items)
  | .obj entries => .obj (finiteEntries entries)
  | v => v

def finiteItems : List Json → List Json
  | [] => []
  | v :: rest => v.finite :: finiteItems rest

def finiteEntries : List (String × Json) → List (String × Json)
  | [] => []
  | (k, v) :: rest => (k, v.finite) :: finiteEntries rest
end

mutual
def mapText (f : String → String) : Json → Json
  | .str s => .str (f s)
  | .arr items => .arr (mapTexts f items)
  | .obj entries => .object (mapEntries f entries)
  | .null => .null
  | .bool b => .bool b
  | .num n => .num n

def mapTexts (f : String → String) : List Json → List Json
  | [] => []
  | v :: rest => mapText f v :: mapTexts f rest

def mapEntries (f : String → String) : List (String × Json) → List (String × Json)
  | [] => []
  | (k, v) :: rest => (f k, mapText f v) :: mapEntries f rest
end

end Json

end LspClient

namespace LspClient.Json

/-! ### Printing -/

def Number.render : Number → String
  | .int n => toString n
  | .float x => x.render

def hexDigit (n : Nat) : Char := "0123456789abcdef".toList.getD n '0'

def escapeChar (c : Char) : List Char :=
  match c with
  | '"' => ['\\', '"']
  | '\\' => ['\\', '\\']
  | '\x08' => ['\\', 'b']
  | '\x0c' => ['\\', 'f']
  | '\n' => ['\\', 'n']
  | '\r' => ['\\', 'r']
  | '\t' => ['\\', 't']
  | c =>
    if c.toNat < 0x20 then
      ['\\', 'u', '0', '0', hexDigit (c.toNat / 16), hexDigit (c.toNat % 16)]
    else [c]

def quote (s : String) : String :=
  (s.toList.foldl (fun acc c => (escapeChar c).foldl String.push acc) "\"").push '"'

mutual

def compact : Json → String
  | .null => "null"
  | .bool b => if b then "true" else "false"
  | .num n => n.render
  | .str s => quote s
  | .arr items => "[" ++ compactItems true items ++ "]"
  | .obj entries => "\x7b" ++ compactEntries true entries ++ "\x7d"

/-- The items of an array, a comma before each but the first. -/
def compactItems (first : Bool) : List Json → String
  | [] => ""
  | v :: rest => (if first then "" else ",") ++ compact v ++ compactItems false rest

def compactEntries (first : Bool) : List (String × Json) → String
  | [] => ""
  | (k, v) :: rest =>
    (if first then "" else ",") ++ quote k ++ ":" ++ compact v ++ compactEntries false rest

end

end LspClient.Json
