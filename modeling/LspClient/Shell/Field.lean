import LspClient.FileTree.Operations
import LspClient.Shell.Pattern

/-!
# Fields

What the expansion of a word gives, and how it falls apart into fields: expanded characters that
part fields do so where they are not quoted. A field with a pattern in it becomes the names of the
files that match, if there are any.
-/

namespace LspClient.Shell

inductive Mark where
  | char (c : Char) (quoted expanded : Bool)
  /-- Nothing, in quotes. -/
  | void
  /-- The end of one argument among several. -/
  | boundary
  deriving DecidableEq, Repr

namespace Mark

def ofText (cs : Octets) (quoted expanded : Bool) : List Mark :=
  if cs.isEmpty then (if quoted then [.void] else [])
  else cs.map fun c => .char c quoted expanded

/-- The characters, with a blank for each boundary. -/
def text (ms : List Mark) : Octets :=
  ms.filterMap fun
    | .char c _ _ => some c
    | .void => none
    | .boundary => some ' '

/-- The characters, each with whether it is quoted. -/
def quotedChars (ms : List Mark) : List (Char × Bool) :=
  ms.filterMap fun
    | .char c q _ => some (c, q)
    | .void => none
    | .boundary => some (' ', false)

end Mark

abbrev Field := List (Char × Bool)

/-- Part marks into fields; `open_` is the field under way, in reverse, if there is one. -/
def partMarks (ifs : Octets) (open_ : Option Field) (acc : List Field) : List Mark → List Field
  | [] => ((open_.map List.reverse).toList ++ acc).reverse
  | .void :: rest => partMarks ifs (some (open_.getD [])) acc rest
  | .boundary :: rest => partMarks ifs none ((open_.map List.reverse).toList ++ acc) rest
  | .char c quoted expanded :: rest =>
    if expanded && !quoted && ifs.contains c then
      let isSpace := c = ' ' || c = '\t' || c = '\n'
      let field := if isSpace then open_ else some (open_.getD [])
      partMarks ifs none ((field.map List.reverse).toList ++ acc) rest
    else partMarks ifs (some ((c, quoted) :: open_.getD [])) acc rest

def fieldsOf (ifs : Octets) (ms : List Mark) : List Field := partMarks ifs none [] ms

/-! ### Names of files -/

/-- The pieces of a field between slashes. -/
def segments (field : Field) : List Field :=
  let (last, parts) := field.foldr (fun c (current, parts) =>
    if c.1 = '/' then ([], current :: parts) else (c :: current, parts)) (([] : Field), [])
  last :: parts

/-- The names in a directory that match a pattern. A dot in front must be written. -/
def namesIn (t : FileTree) (dir : Octets) (p : Pattern) : List Octets :=
  let path : Path := ⟨if dir.isEmpty then "." else Octets.toText dir⟩
  match t.stat path with
  | .ok (loc, .dir _) =>
    let names := (t.children loc).map fun (n, _) => Octets.ofText n
    (names.filter fun n =>
      p.matches_ n && (n.head? ≠ some '.' || p.head? = some (.char '.'))).mergeSort Octets.before
  | _ => []

/-- Follow the segments of a pattern from the paths that were found so far. -/
def expandSegments (t : FileTree) : List Field → List Octets → List Octets
  | [], found => found
  | segment :: rest, found =>
    let p := patternOf segment
    let literal := segment.map (·.1)
    let next := found.flatMap fun dir =>
      if p.any isSpecialItem then (namesIn t dir p).map (dir ++ ·) else [dir ++ literal]
    expandSegments t rest (if rest.isEmpty then next else next.map (· ++ ['/']))

/-- A field as a word, or as the files that it matches. -/
def expandField (t : FileTree) (field : Field) : List Octets :=
  let literal := field.map (·.1)
  if (patternOf field).any isSpecialItem then
    let found := (expandSegments t (segments field) [[]]).filter fun f =>
      t.exists? ⟨Octets.toText f⟩
    if found.isEmpty then [literal] else found
  else [literal]

/-! ### Reading fields from a line -/

/-- The characters of a line, with those behind a backslash marked. -/
def markEscapes : Octets → Field
  | '\\' :: c :: rest => (c, true) :: markEscapes rest
  | ['\\'] => []
  | c :: rest => (c, false) :: markEscapes rest
  | [] => []

def isSplit (ifs : Octets) (c : Char × Bool) : Bool := !c.2 && ifs.contains c.1

def isSplitSpace (ifs : Octets) (c : Char × Bool) : Bool :=
  isSplit ifs c && (c.1 = ' ' || c.1 = '\t' || c.1 = '\n')

/-- Part a line into `n` values, of which the last takes all that is left. -/
def partLine (ifs : Octets) : Nat → Field → List Octets
  | 0, _ => []
  | 1, cs =>
    let cs := cs.dropWhile (isSplitSpace ifs)
    let trimmed := (cs.reverse.dropWhile (isSplitSpace ifs)).reverse
    [trimmed.map (·.1)]
  | n + 2, cs =>
    let cs := cs.dropWhile (isSplitSpace ifs)
    let (field, rest) := cs.span fun c => !isSplit ifs c
    let rest := rest.dropWhile (isSplitSpace ifs)
    let rest := match rest with
      | c :: more => if isSplit ifs c then more else c :: more
      | [] => []
    field.map (·.1) :: partLine ifs (n + 1) rest

end LspClient.Shell
