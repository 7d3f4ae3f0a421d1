import LspClient.Json.Basic
import LspClient.Text.Quoted

/-!
# Typed reading of JSON values

A `Decoder` takes a value apart or says what is wrong with it. `record` reads a structure from an
object, or from an array that lists its members in their declared order: an unknown member is
passed over, a wrong one is reported in the order in which the value holds them, and only then a
missing one in the declared order.
-/

namespace LspClient.Json

inductive DecodeError where
  /-- A value of another kind than the expected one. -/
  | invalidType (found : Json) (expected : String)
  /-- A value of the right kind that is out of bounds. -/
  | invalidValue (found : Json) (expected : String)
  | invalidLength (length : Nat) (expected : String)
  | missingField (name : String)
  | rejected (message : String)

/-- How a message names a value that was not expected. -/
def described : Json → String
  | .null => "null"
  | .bool b => s!"boolean `{b}`"
  | .num (.int n) => s!"integer `{n}`"
  | .num (.float x) => s!"floating point `{x.render}`"
  | .str s => "string " ++ Text.quoted s
  | .arr _ => "sequence"
  | .obj _ => "map"

def DecodeError.message : DecodeError → String
  | .invalidType found expected => s!"invalid type: {found.described}, expected {expected}"
  | .invalidValue found expected => s!"invalid value: {found.described}, expected {expected}"
  | .invalidLength n expected => s!"invalid length {n}, expected {expected}"
  | .missingField name => s!"missing field `{name}`"
  | .rejected message => message

abbrev Decoder (α : Type) := Json → Except DecodeError α

namespace Decoder

variable {α : Type}

def text : Decoder String
  | .str s => .ok s
  | v => .error (.invalidType v "a string")

def flag : Decoder Bool
  | .bool b => .ok b
  | v => .error (.invalidType v "a boolean")

/-- An integer from `low` to `high`, of the type that messages call `kind`. -/
def integer (kind : String) (low high : Int) : Decoder Int
  | .num (.int n) =>
    if low ≤ n ∧ n ≤ high then .ok n else .error (.invalidValue (.num (.int n)) kind)
  | v => .error (.invalidType v kind)

def word8 : Decoder Nat := fun v => (integer "u8" 0 255 v).map Int.toNat

def word32 : Decoder Nat := fun v => (integer "u32" 0 4294967295 v).map Int.toNat

def word64 : Decoder Nat := fun v => (integer "u64" 0 18446744073709551615 v).map Int.toNat

def size : Decoder Nat := fun v => (integer "usize" 0 18446744073709551615 v).map Int.toNat

def int32 : Decoder Int := integer "i32" (-2147483648) 2147483647

def int64 : Decoder Int := integer "i64" (-9223372036854775808) 9223372036854775807

def any : Decoder Json := .ok

/-- Null for nothing, anything else through `d`. -/
def nullable (d : Decoder α) : Decoder (Option α)
  | .null => .ok none
  | v => (d v).map some

def list (d : Decoder α) : Decoder (List α)
  | .arr items => items.mapM d
  | v => .error (.invalidType v "a sequence")

/-- The entries of an object, in the order of their keys. -/
def table (d : Decoder α) : Decoder (List (String × α))
  | .obj entries => entries.mapM fun (k, v) => (d v).map fun a => (k, a)
  | v => .error (.invalidType v "a map")

end Decoder

/-! ### Records -/

/-- A member of a record: its name, what its value must satisfy, and whether an array may end
before it. -/
structure Member where
  name : String
  check : Json → Except DecodeError Unit
  defaulted : Bool

def Member.of {α : Type} (name : String) (d : Decoder α) (defaulted : Bool) : Member where
  name := name
  check := fun v => (d v).map fun _ => ()
  defaulted := defaulted

/-- The members of a record, by name. -/
abbrev Members := String → Option Json

namespace Members

variable {α : Type}

def required (ms : Members) (name : String) (d : Decoder α) : Except DecodeError α :=
  match ms name with
  | some v => d v
  | none => .error (.missingField name)

def withDefault (ms : Members) (name : String) (d : Decoder α) (value : α) :
    Except DecodeError α :=
  match ms name with
  | some v => d v
  | none => .ok value

def optional (ms : Members) (name : String) (d : Decoder α) : Except DecodeError (Option α) :=
  ms.withDefault name (Decoder.nullable d) none

end Members

/-- Check array items against the declared members, from member `i` of `total` on. -/
def checkItems (record : String) (total : Nat) :
    Nat → List Member → List Json → Except DecodeError Unit
  | i, [], rest =>
    if rest.isEmpty then .ok ()
    else .error (.invalidLength (i + rest.length) "fewer elements in array")
  | i, m :: ms, [] =>
    if m.defaulted then checkItems record total (i + 1) ms []
    else
      let noun := if total = 1 then "element" else "elements"
      .error (.invalidLength i s!"struct {record} with {total} {noun}")
  | i, m :: ms, v :: rest => do
    m.check v
    checkItems record total (i + 1) ms rest

def checkEntry (members : List Member) (entry : String × Json) : Except DecodeError Unit :=
  match members.find? fun m => m.name == entry.1 with
  | some m => m.check entry.2
  | none => .ok ()

/-- Read the structure `name` from an object or from an array of its members. -/
def record {α : Type} (name : String) (members : List Member)
    (build : Members → Except DecodeError α) : Decoder α
  | .obj entries => do
    entries.forM (checkEntry members)
    build fun key => entries.lookup key
  | .arr items => do
    checkItems name members.length 0 members items
    build fun key => ((members.map Member.name).zip items).lookup key
  | v => .error (.invalidType v s!"struct {name}")

end LspClient.Json
