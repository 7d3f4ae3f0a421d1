import LspClient.Path

/-!
# Arguments

A command line names one command with what it works on. The options of all commands may stand
before the command as well as behind it, where they count more. An option has its value behind an
equals sign or in the next argument, which then must not look like an option; no option is given
twice. Behind two dashes nothing is an option. What cannot be read this way is a mistake of usage,
whatever is wrong with it.
-/

namespace LspClient.CommandLine

inductive Command where
  | status
  | diagnose (pattern : String) (max : Option Nat)
  | write (path : Path) (input : Option Path) (format diagnostics : Bool)
  | format (path : Path)
  deriving DecidableEq, Repr

/-- What a command line asks for. -/
structure Request where
  config : Option Path
  root : Option Path
  command : Command
  deriving DecidableEq, Repr

/-- The options that are known at some place, by whether a value comes with them. -/
structure Known where
  flags : List String
  valued : List String

/-- What one argument or two say. -/
inductive Item where
  | flag (name : String)
  | valued (name value : String)
  | plain (value : String)
  deriving DecidableEq, Repr

/-- An argument that begins with a dash and is not a dash alone. -/
def looksLikeOption (arg : String) : Bool :=
  match arg.toList with
  | '-' :: _ :: _ => true
  | _ => false

namespace Known

/-- What a long option says, by what follows its two dashes, and the arguments behind it. -/
def option? (k : Known) (cs : List Char) (rest : List String) : Option (Item × List String) :=
  let name := String.ofList (cs.takeWhile (· ≠ '='))
  match cs.dropWhile (· ≠ '='), rest with
  | _ :: value, rest =>
    if k.valued.contains name then some (.valued name (String.ofList value), rest) else none
  | [], rest =>
    if k.flags.contains name then some (.flag name, rest)
    else if k.valued.contains name then
      match rest with
      | value :: rest => if looksLikeOption value then none else some (.valued name value, rest)
      | [] => none
    else none

/-- What the first argument says, and the arguments behind it. -/
def item? (k : Known) (arg : String) (rest : List String) : Option (Item × List String) :=
  match arg.toList with
  | '-' :: '-' :: cs => k.option? cs rest
  | _ => if looksLikeOption arg then none else some (.plain arg, rest)

/-- What all arguments say. -/
def items? (k : Known) : Nat → List Item → List String → Option (List Item)
  | _, acc, [] => some acc.reverse
  | 0, _, _ => none
  | n + 1, acc, arg :: rest =>
    if arg = "--" then some (acc.reverse ++ rest.map Item.plain)
    else (k.item? arg rest).bind fun (item, rest) => items? k n (item :: acc) rest

end Known

/-! ### Values -/

/-- The greatest number that can be given. -/
def maxNumber : Nat := 0xFFFFFFFFFFFFFFFF

def number? (s : String) : Option Nat :=
  let digits := match s.toList with
    | '+' :: cs => cs
    | cs => cs
  if digits.isEmpty || !digits.all Char.isDigit then none
  else
    let n := digits.foldl (fun n c => n * 10 + (c.toNat - '0'.toNat)) 0
    if n ≤ maxNumber then some n else none

/-- A path is not empty. -/
def path? (s : String) : Option Path := if s = "" then none else some ⟨s⟩

/-- The value of an option, if it is given and can be read: `none` where it cannot. -/
def valueOf {α : Type} (read : String → Option α) (name : String) (items : List Item) :
    Option (Option α) :=
  match items.find? fun
    | .valued n _ => n == name
    | _ => false with
  | some (.valued _ value) => (read value).map some
  | _ => some none

def has (name : String) (items : List Item) : Bool := items.contains (.flag name)

/-- The option that an item is. -/
def Item.option? : Item → Option String
  | .flag name => some name
  | .valued name _ => some name
  | .plain _ => none

def Item.plain? : Item → Option String
  | .plain value => some value
  | _ => none

def noneTwice : List String → Bool
  | [] => true
  | name :: rest => !rest.contains name && noneTwice rest

/-! ### The command line -/

/-- The options of all commands. -/
def general : List String := ["config", "root"]

/-- The options that a command knows; none for what is no command. -/
def knownOf : String → Option Known
  | "status" => some ⟨[], general⟩
  | "diagnose" => some ⟨[], "max" :: general⟩
  | "write" => some ⟨["no-format", "no-diagnostics"], "input" :: general⟩
  | "format" => some ⟨[], general⟩
  | _ => none

def commandOf (name : String) (items : List Item) : Option Command :=
  match name, items.filterMap Item.plain? with
  | "status", [] => some .status
  | "diagnose", [pattern] => do return .diagnose pattern (← valueOf number? "max" items)
  | "write", [path] => do
    return .write (← path? path) (← valueOf path? "input" items) (!has "no-format" items)
      (!has "no-diagnostics" items)
  | "format", [path] => (path? path).map .format
  | _, _ => none

structure General where
  config : Option Path
  root : Option Path

def generalOf (items : List Item) : Option General := do
  if noneTwice (items.filterMap Item.option?) then
    return ⟨← valueOf path? "config" items, ← valueOf path? "root" items⟩
  else none

/-- The part of a command line from its command on. -/
def readCommand (before : General) (name : String) (args : List String) : Option Request := do
  let known ← knownOf name
  let items ← known.items? args.length [] args
  let after ← generalOf items
  return {
    config := after.config.or before.config
    root := after.root.or before.root
    command := ← commandOf name items }

/-- Read options up to the command. -/
def readFrom : Nat → List Item → List String → Option Request
  | n + 1, acc, arg :: rest =>
    match Known.item? ⟨[], general⟩ arg rest with
    | some (.plain name, rest) => (generalOf acc).bind fun before => readCommand before name rest
    | some (item, rest) => readFrom n (item :: acc) rest
    | none => none
  | _, _, _ => none

/-- What arguments ask for, unless there is a mistake of usage in them. -/
def read (args : List String) : Option Request := readFrom args.length [] args

end LspClient.CommandLine
