import LspClient.Path
import LspClient.Text.Utf8

/-!
# File trees

A `FileTree` is a list of entries, each a `Node` at a `Location`: the names on the way from the
root. What an operation does is said by `get?`, which looks a location up.

The tree belongs to the process that looks at it: of the permission bits only the owner's count,
`cwd` is where relative paths start, and `umask` says which bits new directories do not get.

A `FileError` says why an operation did not work, with the number and the wording that the system
gives it.
-/

namespace LspClient

/-! ### Errors -/

inductive FileError where
  | notFound
  | permissionDenied
  | busy
  | alreadyExists
  | notDirectory
  | isDirectory
  | invalidArgument
  | nameTooLong
  | notEmpty
  /-- Too many symbolic links on the way. -/
  | linkLoop
  /-- The bytes of a file are not UTF-8. -/
  | notText
  /-- A path with a null character. -/
  | nullInPath
  /-- A command with a null character. -/
  | nullInCommand
  /-- No ancestor of a directory to be made exists. -/
  | noAncestor
  /-- A file that is to be run is no program. -/
  | notProgram
  deriving DecidableEq, Repr, Inhabited

namespace FileError

/-- The wording of the system, without the number. -/
def reason : FileError → String
  | .notFound => "No such file or directory"
  | .permissionDenied => "Permission denied"
  | .busy => "Device or resource busy"
  | .alreadyExists => "File exists"
  | .notDirectory => "Not a directory"
  | .isDirectory => "Is a directory"
  | .invalidArgument => "Invalid argument"
  | .nameTooLong => "File name too long"
  | .notEmpty => "Directory not empty"
  | .linkLoop => "Too many levels of symbolic links"
  | .notText => "stream did not contain valid UTF-8"
  | .nullInPath => "file name contained an unexpected NUL byte"
  | .nullInCommand => "nul byte found in provided data"
  | .noAncestor => "failed to create whole tree"
  | .notProgram => "Exec format error"

/-- The number of the system, for the errors that are its own. -/
def number? : FileError → Option Nat
  | .notFound => some 2
  | .permissionDenied => some 13
  | .busy => some 16
  | .alreadyExists => some 17
  | .notDirectory => some 20
  | .isDirectory => some 21
  | .invalidArgument => some 22
  | .nameTooLong => some 36
  | .notEmpty => some 39
  | .linkLoop => some 40
  | .notProgram => some 8
  | .notText | .nullInPath | .nullInCommand | .noAncestor => none

def message (e : FileError) : String :=
  match e.number? with
  | some n => s!"{e.reason} (os error {n})"
  | none => e.reason

end FileError

/-! ### Trees -/

/-- Where an entry is: the names on the way from the root. -/
abbrev Location := List String

inductive Node where
  | file (content : List UInt8) (mode : Nat)
  | dir (mode : Nat)
  | link (target : String)
  deriving DecidableEq, Repr, Inhabited

namespace Node

def isFile : Node → Bool
  | .file .. => true
  | _ => false

def isDir : Node → Bool
  | .dir .. => true
  | _ => false

def mode : Node → Nat
  | .file _ m => m
  | .dir m => m
  | .link _ => 0o777

def withMode (m : Nat) : Node → Node
  | .file content _ => .file content m
  | .dir _ => .dir m
  | .link target => .link target

/-- Whether the owner may do what bit `bit` of the owner's three stands for. -/
def permits (n : Node) (bit : Nat) : Bool := n.mode.testBit bit

def readable (n : Node) : Bool := n.permits 8

def writable (n : Node) : Bool := n.permits 7

/-- Whether the entries of a directory may be reached. -/
def searchable (n : Node) : Bool := n.permits 6

end Node

structure FileTree where
  entries : List (Location × Node)
  cwd : Location
  umask : Nat
  deriving Repr, Inhabited

namespace FileTree

/-- A tree that holds nothing but its root. -/
def empty : FileTree := ⟨[([], .dir 0o755)], [], 0o022⟩

/-- Where relative paths start, as a path. -/
def workingDirectory (t : FileTree) : Path := ⟨"/" ++ "/".intercalate t.cwd⟩

def get? (t : FileTree) (loc : Location) : Option Node := t.entries.lookup loc

def erase (t : FileTree) (loc : Location) : FileTree :=
  { t with entries := t.entries.filter fun e => e.1 != loc }

/-- The tree with `node` at `loc`, in place of what was there. -/
def insert (t : FileTree) (loc : Location) (node : Node) : FileTree :=
  { t with entries := (loc, node) :: (t.erase loc).entries }

/-- The tree in which everything at or below `source` is at or below `target`. -/
def move (t : FileTree) (source target : Location) : FileTree :=
  { t with entries := (t.entries.filter fun e => !(target.isPrefixOf e.1)).map fun e =>
      if source.isPrefixOf e.1 then (target ++ e.1.drop source.length, e.2) else e }

def children (t : FileTree) (loc : Location) : List (String × Node) :=
  t.entries.filterMap fun (l, n) =>
    match l.getLast? with
    | some name => if l.dropLast = loc then some (name, n) else none
    | none => none

def isEmptyDir (t : FileTree) (loc : Location) : Bool := (t.children loc).isEmpty

/-! ### Order -/

/-- Locations in the order of a walk that takes the entries of a directory by name. -/
def before : Location → Location → Bool
  | [], _ => true
  | _ :: _, [] => false
  | a :: as, b :: bs => a < b || (a == b && before as bs)

/-- Everything below `loc`, by the names from there on, in walking order. -/
def below (t : FileTree) (loc : Location) : List (Location × Node) :=
  (t.entries.filterMap fun (l, n) =>
    if loc.isPrefixOf l ∧ l ≠ loc then some (l.drop loc.length, n) else none).mergeSort
      fun a b => before a.1 b.1

end FileTree

end LspClient
