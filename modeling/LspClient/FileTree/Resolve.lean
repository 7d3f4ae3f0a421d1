import LspClient.FileTree.Basic

/-!
# Following a path

`resolve` takes a path through a tree. Every name but the last must lead on from a directory that
may be searched, a dot stays, two dots go up, and a symbolic link is replaced by its target; the
last name may be free. A path that ends in a slash is followed as if a dot came behind it.

`parent` goes to the directory of a path's last name and stops there, for the operations that make,
move or remove an entry.
-/

namespace LspClient.FileTree

/-- The names of a path, as they are written. -/
def namesOf (text : String) : List String :=
  ((Path.pieces 0 [] text.toList).map fun (s, _) => String.ofList s).filter (· ≠ "")

def endsInSlash (text : String) : Bool := text.toList.getLast? == some '/'

/-- The names to be followed. -/
def stepsOf (text : String) : List String :=
  namesOf text ++ if endsInSlash text ∧ namesOf text ≠ [] then ["."] else []

def startOf (t : FileTree) (text : String) : Location :=
  if text.toList.head? = some '/' then [] else t.cwd

/-- The longest name, in bytes. -/
def maxName : Nat := 255

abbrev Reached := Location × Option Node

/-- Follow names from a location; a link is handed on to `onLink`. -/
def follow (t : FileTree) (last : Bool) (onLink : Location → List String → Except FileError Reached)
    (loc : Location) : List String → Except FileError Reached
  | [] => .ok (loc, t.get? loc)
  | name :: rest =>
    match t.get? loc with
    | none => .error .notFound
    | some dir =>
      if !dir.isDir then .error .notDirectory
      else if !dir.searchable then .error .permissionDenied
      else if name = "." then follow t last onLink loc rest
      else if name = ".." then follow t last onLink loc.dropLast rest
      else if name.utf8ByteSize > maxName then .error .nameTooLong
      else
        let next := loc ++ [name]
        match t.get? next with
        | none => if rest = [] then .ok (next, none) else .error .notFound
        | some (.link target) =>
          if rest = [] ∧ !last then .ok (next, some (.link target))
          else onLink (if target.toList.head? = some '/' then [] else loc) (stepsOf target ++ rest)
        | some _ => follow t last onLink next rest

/-- The number of links that may be met on the way. -/
def maxLinks : Nat := 40

def followLinks (t : FileTree) (last : Bool) : Nat → Location → List String →
    Except FileError Reached
  | 0, loc, names => follow t last (fun _ _ => .error .linkLoop) loc names
  | n + 1, loc, names => follow t last (followLinks t last n) loc names

/-- Where a path leads, and what is there. With `last` unset a link at the end is not followed. -/
def resolve (t : FileTree) (p : Path) (last : Bool) : Except FileError Reached :=
  if p.text.toList.contains '\x00' then .error .nullInPath
  else if p.text = "" then .error .notFound
  else followLinks t last maxLinks (t.startOf p.text) (stepsOf p.text)

/-- What a path leads to. -/
def stat (t : FileTree) (p : Path) : Except FileError (Location × Node) :=
  match t.resolve p true with
  | .ok (loc, some node) => .ok (loc, node)
  | .ok (_, none) => .error .notFound
  | .error e => .error e

def node? (t : FileTree) (p : Path) : Option Node := (t.stat p).toOption.map (·.2)

def exists? (t : FileTree) (p : Path) : Bool := (t.node? p).isSome

def isDir (t : FileTree) (p : Path) : Bool := (t.node? p).any Node.isDir

def isFile (t : FileTree) (p : Path) : Bool := (t.node? p).any Node.isFile

/-! ### Parents -/

/-- The last name of a path, where it is one. -/
inductive LastName where
  | root
  /-- A dot or two. -/
  | dots
  | name (s : String)
  deriving DecidableEq, Repr

def lastOf (p : Path) : LastName :=
  match (namesOf p.text).getLast? with
  | none => .root
  | some "." => .dots
  | some ".." => .dots
  | some s => .name s

/-- The directory that holds a path's last name. -/
def parent (t : FileTree) (p : Path) : Except FileError (Location × Node) :=
  if p.text.toList.contains '\x00' then .error .nullInPath
  else if p.text = "" then .error .notFound
  else
    match followLinks t true maxLinks (t.startOf p.text) (namesOf p.text).dropLast with
    | .error e => .error e
    | .ok (_, none) => .error .notFound
    | .ok (loc, some node) =>
      if !node.isDir then .error .notDirectory
      else if !node.searchable then .error .permissionDenied
      else .ok (loc, node)

/-- The directory of a path and its last name, which must be one. -/
def slot (t : FileTree) (p : Path) (otherwise : FileError) :
    Except FileError (Location × Node × String) := do
  let (loc, dir) ← t.parent p
  match lastOf p with
  | .name s => if s.utf8ByteSize > maxName then .error .nameTooLong else return (loc, dir, s)
  | _ => .error otherwise

end LspClient.FileTree
