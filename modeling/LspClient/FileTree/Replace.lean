import LspClient.FileTree.Operations

/-!
# Replacing a file

`replace` puts new content into a file in one step: the content goes to a temporary file beside it,
which is then renamed onto it, so that nobody sees a file half written. Where the rename is refused
although something is there, what is there is moved aside under the extension `bak` first, and
comes back if the second try is refused as well.

Temporary files have mode 600. A file that is replaced hands on its mode unless one is given; a
file that was not there keeps the mode of the temporary one.
-/

namespace LspClient.FileTree

structure ReplaceOptions where
  /-- The mode of the file, when it is not to be that of the file replaced. -/
  mode : Option Nat
  createParents : Bool
  deriving DecidableEq, Repr

def ReplaceOptions.default : ReplaceOptions := ⟨none, true⟩

/-- The mode a file is given after the rename, if any. -/
def modeFor (t : FileTree) (p : Path) (fixed : Option Nat) : Option Nat :=
  match fixed with
  | some m => some m
  | none => (t.node? p).map fun n => n.mode &&& 0o7777

/-- The first of the names `.tmp0`, `.tmp1`, … that is free in a directory, out of `n` tries. -/
def freshName (t : FileTree) (loc : Location) : Nat → Nat → String
  | 0, i => s!".tmp{i}"
  | n + 1, i =>
    let name := s!".tmp{i}"
    if (t.get? (loc ++ [name])).isSome then freshName t loc n (i + 1) else name

/-- Make a temporary file in the directory `dir`; its path is given with the tree. -/
def makeTemporary (t : FileTree) (dir : Path) (content : List UInt8) :
    Except FileError (FileTree × Path) := do
  let (loc, node) ← t.stat dir
  if !node.isDir then .error .notDirectory
  else if !node.searchable ∨ !node.writable then .error .permissionDenied
  else
    let name := t.freshName loc t.entries.length 0
    if name.utf8ByteSize > maxName then .error .nameTooLong
    else return (t.insert (loc ++ [name]) (.file content 0o600), dir.join ⟨name⟩)

/-- The tree without a temporary file. -/
def dropTemporary (t : FileTree) (tmp : Path) : FileTree :=
  match t.removeFile tmp with
  | .ok t => t
  | .error _ => t

/-- Move what is at `p` out of the way and try again. -/
def replaceAside (t : FileTree) (p tmp : Path) : Outcome :=
  let backup := p.withExtension "bak"
  let t := match t.removeFile backup with
    | .ok t => t
    | .error _ => t
  match t.rename p backup with
  | .error e => ⟨t.dropTemporary tmp, some e⟩
  | .ok moved =>
    match moved.rename tmp p with
    | .error e =>
      let back := match moved.rename backup p with
        | .ok t => t
        | .error _ => moved
      ⟨back.dropTemporary tmp, some e⟩
    | .ok t =>
      match t.removeFile backup with
      | .ok t => ⟨t, none⟩
      | .error _ => ⟨t, none⟩

/-- Rename the temporary file onto `p`. -/
def persist (t : FileTree) (p tmp : Path) : Outcome :=
  match t.rename tmp p with
  | .ok t => ⟨t, none⟩
  | .error e =>
    if t.exists? p then replaceAside t p tmp else ⟨t.dropTemporary tmp, some e⟩

/-- The directory of a path, as a path of its own. -/
def directoryOf (p : Path) : Path :=
  match p.parent? with
  | some q => if q.text = "" then ⟨"."⟩ else q
  | none => ⟨"."⟩

def replaceWith (t : FileTree) (p : Path) (content : List UInt8) (options : ReplaceOptions) :
    Outcome :=
  let dir := directoryOf p
  let made : Outcome := if options.createParents then t.makeDirAll dir else ⟨t, none⟩
  match made.error with
  | some _ => made
  | none =>
    let mode := made.tree.modeFor p options.mode
    match made.tree.makeTemporary dir content with
    | .error e => ⟨made.tree, some e⟩
    | .ok (withTmp, tmp) =>
      let done := persist withTmp p tmp
      match done.error, mode with
      | none, some m =>
        match done.tree.setMode p m with
        | .ok t => ⟨t, none⟩
        | .error e => ⟨done.tree, some e⟩
      | _, _ => done

def replace (t : FileTree) (p : Path) (content : List UInt8) : Outcome :=
  t.replaceWith p content ReplaceOptions.default

end LspClient.FileTree
