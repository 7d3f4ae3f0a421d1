import LspClient.Failure
import LspClient.Glob.Ignore
import LspClient.Path
import LspClient.Text.Blank

/-!
# Expanding patterns

`normalize` turns a pattern as it is typed into the one that is matched: slashes for backslashes,
any depth for a pattern without a slash, and closing braces for those that are missing in number.
`split` cuts a normalised pattern in two: the leading components without a metacharacter, which
lead to the directory the search starts in, and the remainder, which is matched below it.

`expand` lists the files a pattern stands for, in the order of a walk that takes the entries of a
directory by name. A path without metacharacters that names a file stands for that file. Anything
else is searched for below the directory that the literal beginning of the pattern leads to.

The search passes over hidden entries, `.git`, `node_modules` unless the pattern names it, and what
ignore rules exclude; an entry is found only if the directories on the way to it are. When nothing
is found it is repeated without ignore rules.
-/

namespace LspClient.Glob

/-! ### Patterns -/

def closeBraces (cs : List Char) : List Char :=
  cs ++ List.replicate (cs.count '{' - cs.count '}') '}'

def normalizeChars (cs : List Char) : List Char :=
  let cs := (Text.trimChars cs).map fun c => if c = '\\' then '/' else c
  let anchored := cs.contains '/' || ['*', '*'].isPrefixOf cs
  closeBraces (if anchored then cs else '*' :: '*' :: '/' :: cs)

def normalize (pattern : String) : String :=
  String.ofList (normalizeChars pattern.toList)

def isMeta (c : Char) : Bool := c = '*' || c = '?' || c = '[' || c = '{'

def hasMeta (cs : List Char) : Bool := cs.any isMeta

/-- The components of a pattern, empty ones included. -/
def splitSlash : List Char → List (List Char)
  | [] => [[]]
  | c :: rest =>
    if c = '/' then [] :: splitSlash rest
    else match splitSlash rest with
      | [] => [[c]]
      | part :: parts => (c :: part) :: parts

def joinSlash : List (List Char) → List Char
  | [] => []
  | [part] => part
  | part :: parts => part ++ '/' :: joinSlash parts

/-- The leading components that hold no metacharacter, the last component apart, and the rest. -/
def splitLiteral : List (List Char) → List (List Char) × List (List Char)
  | [] => ([], [])
  | [part] => ([], [part])
  | part :: parts =>
    if hasMeta part then ([], part :: parts)
    else
      let (literal, rest) := splitLiteral parts
      (part :: literal, rest)

/-- Descend from `base` into one literal component. -/
def enter (base : Path) (part : List Char) : Path :=
  if part = [] ∨ part = ['.'] then base else base.join ⟨String.ofList part⟩

/-- The directory to search, and the pattern to match below it. -/
def split (root : Path) (pattern : String) : Path × String :=
  let (literal, rest) := splitLiteral (splitSlash pattern.toList)
  let base := match literal with
    | [] :: literal => literal.foldl enter ⟨"/"⟩
    | literal => literal.foldl enter root
  (base, String.ofList (joinSlash rest))

/-! ### The search -/

/-- How a search chooses among the entries it meets. -/
structure Choice where
  includeModules : Bool
  useIgnoreRules : Bool
  deriving DecidableEq, Repr

def isHidden (name : String) : Bool := name.toList.head? == some '.'

/-- Whether a search takes the entry at `loc`, given that it has come as far. -/
def Choice.takes (c : Choice) (t : FileTree) (loc : Location) (isDir : Bool) : Bool :=
  match loc.getLast? with
  | none => true
  | some name =>
    let verdict := if c.useIgnoreRules then verdictAt t loc isDir else .silent
    let shown := match verdict with
      | .ignored => false
      | .kept => true
      | .silent => !isHidden name
    shown && name != ".git" && (c.includeModules || name != "node_modules")

/-- Whether a search that is in the directory `dir` reaches the entry at `names` below it. -/
def Choice.reaches (c : Choice) (t : FileTree) (dir : Location) : List String → Bool
  | [] => true
  | [name] => (t.get? dir).any Node.readable && c.takes t (dir ++ [name]) false
  | name :: rest =>
    (t.get? dir).any (fun d => d.readable && d.searchable) &&
      c.takes t (dir ++ [name]) true && c.reaches t (dir ++ [name]) rest

/-- The files below `base` that a search finds and that match. -/
def search (t : FileTree) (base : Path) (pattern : List Token) (c : Choice) : List Path :=
  match t.stat base with
  | .ok (loc, .dir _) =>
    (t.below loc).filterMap fun (names, node) =>
      let relative := "/".intercalate names
      if node.isFile && c.reaches t loc names && isMatch pattern (Utf8.encode relative) then
        some (base.join ⟨relative⟩)
      else none
  | _ => []

structure Expansion where
  files : List Path
  /-- How many files were found, kept or not. -/
  total : Nat
  /-- Whether the search heeded ignore rules. -/
  ignoreRulesApplied : Bool
  deriving DecidableEq, Repr

namespace Expansion

def truncated (e : Expansion) : Bool := e.files.length < e.total

def ofMatches (found : List Path) (max : Nat) (ignoreRulesApplied : Bool) : Expansion :=
  ⟨found.take max, found.length, ignoreRulesApplied⟩

end Expansion

def namesModules (pattern : String) : Bool :=
  pattern.contains "node_modules"

/-- The first `max` of the files that `pattern` stands for, seen from `root`. -/
def expand (t : FileTree) (root : Path) (pattern : String) (max : Nat) :
    Except Failure Expansion :=
  let literal := root.join ⟨pattern⟩
  if !hasMeta pattern.toList && t.isFile literal then .ok ⟨[literal], 1, true⟩
  else
    let normalized := normalize pattern
    let (base, remainder) := split root normalized
    match parse remainder with
    | .error e =>
      .error (.glob pattern s!"error parsing glob '{remainder}': {e.message}")
    | .ok tokens =>
      let choice (useIgnoreRules : Bool) : Choice := ⟨namesModules normalized, useIgnoreRules⟩
      match search t base tokens (choice true) with
      | [] => .ok (Expansion.ofMatches (search t base tokens (choice false)) max false)
      | found => .ok (Expansion.ofMatches found max true)

end LspClient.Glob
