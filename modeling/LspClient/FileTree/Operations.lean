import LspClient.FileTree.Resolve

/-!
# Operations on files

Reading, and the operations that change a tree. Each gives the tree it leaves, or the error for
which it leaves the tree as it was.
-/

namespace LspClient.FileTree

/-! ### Reading -/

def readFile (t : FileTree) (p : Path) : Except FileError (List UInt8) := do
  match ← t.stat p with
  | (_, .file content mode) =>
    if (Node.file content mode).readable then return content else .error .permissionDenied
  | (_, node) => .error (if node.readable then .isDirectory else .permissionDenied)

def readText (t : FileTree) (p : Path) : Except FileError String := do
  match Utf8.decode? (← t.readFile p) with
  | some s => return s
  | none => .error .notText

/-! ### Making and removing -/

def makeDir (t : FileTree) (p : Path) : Except FileError FileTree := do
  let (loc, dir, name) ← t.slot p .alreadyExists
  let target := loc ++ [name]
  if (t.get? target).isSome then .error .alreadyExists
  else if !dir.writable then .error .permissionDenied
  else return t.insert target (.dir (0o777 &&& (0o777 ^^^ t.umask)))

/-- The outcome of an operation that may leave changes behind when it fails. -/
structure Outcome where
  tree : FileTree
  error : Option FileError

/-- Make the last directory of a path; it does no harm if it is there. -/
def ensureDir (t : FileTree) (p : Path) : Outcome :=
  match t.makeDir p with
  | .ok t => ⟨t, none⟩
  | .error e => ⟨t, if t.isDir p then none else some e⟩

/-- Make the directories of a path that do not exist, given the paths above it, nearest first. -/
def makeDirs (t : FileTree) (p : Path) (above : List Path) : Outcome :=
  if p.text = "" then ⟨t, none⟩
  else
    match t.makeDir p with
    | .ok t => ⟨t, none⟩
    | .error e =>
      if e ≠ .notFound then ⟨t, if t.isDir p then none else some e⟩
      else
        match above with
        | [] => ⟨t, some .noAncestor⟩
        | q :: rest =>
          let made := makeDirs t q rest
          match made.error with
          | none => made.tree.ensureDir p
          | some _ => made

def makeDirAll (t : FileTree) (p : Path) : Outcome := makeDirs t p p.ancestors

def removeFile (t : FileTree) (p : Path) : Except FileError FileTree := do
  let (loc, dir, name) ← t.slot p .isDirectory
  match t.get? (loc ++ [name]) with
  | none => .error .notFound
  | some node =>
    if !dir.writable then .error .permissionDenied
    else if node.isDir then .error .isDirectory
    else if endsInSlash p.text then .error .notDirectory
    else return t.erase (loc ++ [name])

/-- Move the entry at `source` to `target`, in place of what is there. A directory takes the place
of an empty directory only, anything else that of what is no directory. -/
def rename (t : FileTree) (source target : Path) : Except FileError FileTree := do
  let (fromLoc, fromDir) ← t.parent source
  let (toLoc, toDir) ← t.parent target
  let (_, _, fromName) ← t.slot source .busy
  let (_, _, toName) ← t.slot target .busy
  let old := fromLoc ++ [fromName]
  let new := toLoc ++ [toName]
  match t.get? old with
  | none => .error .notFound
  | some node =>
    if !node.isDir ∧ (endsInSlash source.text ∨ endsInSlash target.text) then .error .notDirectory
    else if old = new then return t
    else if old.isPrefixOf new then .error .invalidArgument
    else if new.isPrefixOf old then .error .notEmpty
    else if !fromDir.writable ∨ !toDir.writable then .error .permissionDenied
    else
      match t.get? new with
      | none => return t.move old new
      | some there =>
        if node.isDir ∧ !there.isDir then .error .notDirectory
        else if !node.isDir ∧ there.isDir then .error .isDirectory
        else if !t.isEmptyDir new then .error .notEmpty
        else return t.move old new

def setMode (t : FileTree) (p : Path) (mode : Nat) : Except FileError FileTree := do
  let (loc, node) ← t.stat p
  return t.insert loc (node.withMode mode)

/-- Put `content` into the file at `p`, making it if need be. -/
def writeFile (t : FileTree) (p : Path) (content : List UInt8) : Except FileError FileTree := do
  match ← t.resolve p true with
  | (loc, some (.file old mode)) =>
    if (Node.file old mode).writable then return t.insert loc (.file content mode)
    else .error .permissionDenied
  | (_, some _) => .error .isDirectory
  | (loc, none) =>
    match t.get? loc.dropLast with
    | some dir =>
      if dir.writable then return t.insert loc (.file content (0o666 &&& (0o777 ^^^ t.umask)))
      else .error .permissionDenied
    | none => .error .notFound

def makeLink (t : FileTree) (p : Path) (target : String) : Except FileError FileTree := do
  let (loc, dir, name) ← t.slot p .alreadyExists
  if (t.get? (loc ++ [name])).isSome then .error .alreadyExists
  else if !dir.writable then .error .permissionDenied
  else return t.insert (loc ++ [name]) (.link target)

end LspClient.FileTree
