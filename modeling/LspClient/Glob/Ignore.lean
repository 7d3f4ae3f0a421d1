import LspClient.FileTree.Operations
import LspClient.Glob.Matching
import LspClient.Text.Blank

/-!
# Ignore rules

A directory may hold files that list what a search passes over: `.ignore`, `.gitignore` and
`.git/info/exclude`, in this order of precedence. A line is a pattern for what lies below the
directory; one without a slash matches at any depth, one that ends in a slash matches directories
only, and an exclamation mark takes back what earlier lines say.

Of the rules of one kind the last one of the nearest directory that says anything decides.
-/

namespace LspClient.Glob

structure IgnoreRule where
  pattern : List Token
  /-- Whether the rule takes back what others say. -/
  keeps : Bool
  onlyDirs : Bool
  deriving Repr, Inhabited

/-- What ignore rules say of an entry. -/
inductive Verdict where
  | silent
  | ignored
  | kept
  deriving DecidableEq, Repr

def Verdict.orElse (v w : Verdict) : Verdict :=
  match v with
  | .silent => w
  | v => v

namespace IgnoreRule

/-- A line without the blanks at its end, unless the first of them is escaped. -/
def trimLine (line : List Char) : List Char :=
  if [' ', '\\'].isPrefixOf line.reverse then line else Text.dropEndWhile Text.blank line

/-- The pattern of a line, matched from the directory of the rule. -/
def anchor (rooted : Bool) (cs : List Char) : List Char :=
  let deep :=
    if rooted ∨ cs.contains '/' ∨ cs = ['*', '*'] then cs else '*' :: '*' :: '/' :: cs
  if ['*', '*', '/'].isPrefixOf deep.reverse then deep ++ ['/', '*'] else deep

/-- A pattern without the slash at its end, and whether there was one. -/
def cutSlash (cs : List Char) : List Char × Bool :=
  match cs.reverse with
  | '/' :: '\\' :: rest => (rest.reverse, true)
  | '/' :: rest => (rest.reverse, true)
  | _ => (cs, false)

/-- The rule that a line states, if any. -/
def ofLine (line : List Char) : Option IgnoreRule :=
  if line.head? = some '#' then none
  else
    match trimLine line with
    | [] => none
    | cs =>
      let (keeps, rooted, cs) := match cs with
        | '\\' :: '!' :: rest => (false, false, '!' :: rest)
        | '\\' :: '#' :: rest => (false, false, '#' :: rest)
        | '!' :: '/' :: rest => (true, true, rest)
        | '!' :: rest => (true, false, rest)
        | '/' :: rest => (false, true, rest)
        | cs => (false, false, cs)
      let (cs, onlyDirs) := cutSlash cs
      match parse (String.ofList (anchor rooted cs)) with
      | .ok pattern => some ⟨pattern, keeps, onlyDirs⟩
      | .error _ => none

/-- The lines of a file up to the first that is no text, each without a carriage return at its
end. -/
def readLines : List (List UInt8) → List (List Char)
  | [] => []
  | bytes :: rest =>
    match Utf8.decodeChars bytes with
    | .error _ => []
    | .ok cs =>
      (match cs.reverse with
        | '\r' :: line => line.reverse
        | _ => cs) :: readLines rest

def dropByteOrderMark : List (List Char) → List (List Char)
  | [] => []
  | line :: rest => line.dropWhile (· = '\uFEFF') :: rest

/-- The rules of a file, last first. -/
def ofFile (content : List UInt8) : List IgnoreRule :=
  ((dropByteOrderMark (readLines (content.splitOn 10))).filterMap ofLine).reverse

/-- What rules, last first, say of the entry at `names` below their directory. -/
def verdict (rules : List IgnoreRule) (names : List String) (isDir : Bool) : Verdict :=
  let path := Utf8.encode ("/".intercalate names)
  match rules.find? fun r => (!r.onlyDirs || isDir) && isMatch r.pattern path with
  | some r => if r.keeps then .kept else .ignored
  | none => .silent

end IgnoreRule

/-- The kinds of files with ignore rules, the one that goes first at the front. -/
def ignoreFiles : List (List String) := [[".ignore"], [".gitignore"], [".git", "info", "exclude"]]

def pathOf (loc : Location) : Path := ⟨"/" ++ "/".intercalate loc⟩

/-- The rules that the directory at `dir` holds in `file`. -/
def rulesAt (t : FileTree) (dir : Location) (file : List String) : List IgnoreRule :=
  match t.readFile (pathOf (dir ++ file)) with
  | .ok content => IgnoreRule.ofFile content
  | .error _ => []

/-- What the rules in `file` say of the entry at `names` below a directory, given by the names that
lead back from it to the root: its own rules first, then those of the directories over it. -/
def askUp (t : FileTree) (file : List String) (isDir : Bool) : List String → List String → Verdict
  | names, [] => IgnoreRule.verdict (rulesAt t [] file) names isDir
  | names, name :: back =>
    (IgnoreRule.verdict (rulesAt t (name :: back).reverse file) names isDir).orElse
      (askUp t file isDir (name :: names) back)

/-- What all ignore rules say of the entry at `loc`. -/
def verdictAt (t : FileTree) (loc : Location) (isDir : Bool) : Verdict :=
  match loc.reverse with
  | [] => .silent
  | name :: back =>
    (ignoreFiles.map fun file => askUp t file isDir [name] back).foldl Verdict.orElse .silent

end LspClient.Glob
