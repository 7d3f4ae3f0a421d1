import LspClient.Json.Basic
import LspClient.Table

/-!
# Tables of TOML

What a document states part by part grows into a tree of nodes. A table knows how it came about,
for that decides what may still be added to it: one that only lies on the way to another can still
get a heading of its own, one made by a key with dots can be added to by such keys, and each
heading stands once. A value is closed. Of an array of tables the newest is open.

Every operation is refused (`none`) where the document contradicts itself.
-/

namespace LspClient.Toml

/-- How a table came about. -/
inductive Origin where
  /-- It lies on the way to a table with a heading. -/
  | implied
  /-- It was made by a key with dots. -/
  | dotted
  /-- It has a heading. -/
  | stated
  deriving DecidableEq, Repr

inductive Node where
  | value (v : Json)
  | table (origin : Origin) (entries : List (String × Node))
  /-- An array of tables, newest first. -/
  | tables (items : List (List (String × Node)))

abbrev Entries := List (String × Node)

/-- Change the table that a path of headings leads to. -/
def within (change : Entries → Option Entries) : List String → Entries → Option Entries
  | [], es => change es
  | key :: path, es =>
    match Table.get? es key with
    | none => (within change path []).map fun inner => Table.put es key (.table .implied inner)
    | some (.table origin inner) =>
      (within change path inner).map fun inner => Table.put es key (.table origin inner)
    | some (.tables (newest :: older)) =>
      (within change path newest).map fun newest => Table.put es key (.tables (newest :: older))
    | some (.tables []) => none
    | some (.value _) => none

/-- Set a key, which may have dots. -/
def assign (v : Json) : List String → Entries → Option Entries
  | [], _ => none
  | [key], es => if Table.has es key then none else some (Table.put es key (.value v))
  | key :: next :: path, es =>
    let deeper (origin : Origin) (inner : Entries) : Option Entries :=
      (assign v (next :: path) inner).map fun inner => Table.put es key (.table origin inner)
    match Table.get? es key with
    | none => deeper .dotted []
    | some (.table .dotted inner) => deeper .dotted inner
    | some (.table .implied inner) => if path.isEmpty then none else deeper .implied inner
    | some _ => none

/-- Give the table `key` its heading. -/
def openTable (key : String) (es : Entries) : Option Entries :=
  match Table.get? es key with
  | none => some (Table.put es key (.table .stated []))
  | some (.table .implied inner) => some (Table.put es key (.table .stated inner))
  | some _ => none

/-- Add a table to the array of tables `key`. -/
def openItem (key : String) (es : Entries) : Option Entries :=
  match Table.get? es key with
  | none => some (Table.put es key (.tables [[]]))
  | some (.tables items) => some (Table.put es key (.tables ([] :: items)))
  | some _ => none

/-! ### As values -/

mutual
def Node.toJson : Node → Json
  | .value v => v
  | .table _ entries => .object (entriesToJson entries)
  | .tables items => .arr (itemsToJson items).reverse

def entriesToJson : List (String × Node) → List (String × Json)
  | [] => []
  | (key, node) :: rest => (key, node.toJson) :: entriesToJson rest

def itemsToJson : List (List (String × Node)) → List Json
  | [] => []
  | entries :: rest => .object (entriesToJson entries) :: itemsToJson rest
end

def asObject (es : Entries) : Json := .object (entriesToJson es)

end LspClient.Toml
