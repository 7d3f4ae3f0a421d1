/-!
# Paths

A `Path` keeps the text it was given. Its components are the names between slashes: empty ones and
dots count for nothing, except for a dot that begins a relative path. Two texts are the same path
when their components agree (`Path.Same`).

A component is kept with the offset at which it ends, so that the parent of a path is a piece of
its own text and nothing is normalised on the way.
-/

namespace LspClient

structure Path where
  text : String
  deriving DecidableEq, Repr, Inhabited

namespace Path

instance : ToString Path := ⟨Path.text⟩

inductive Component where
  | root
  | here
  | up
  | name (s : List Char)
  deriving DecidableEq, Repr

def chars (p : Path) : List Char := p.text.toList

def isAbsolute (p : Path) : Bool := p.chars.head? == some '/'

/-! ### Components -/

/-- The names between slashes, each with the offset just behind it. -/
def pieces : Nat → List Char → List Char → List (List Char × Nat)
  | offset, acc, [] => [(acc.reverse, offset)]
  | offset, acc, c :: rest =>
    if c = '/' then (acc.reverse, offset) :: pieces (offset + 1) [] rest
    else pieces (offset + 1) (c :: acc) rest

/-- The component that a name stands for; `first` marks the name that begins a relative path. -/
def Component.ofName (first : Bool) (s : List Char) : Option Component :=
  if s = [] then none
  else if s = ['.'] then if first then some .here else none
  else if s = ['.', '.'] then some .up
  else some (.name s)

def bodyFrom (first : Bool) : List (List Char × Nat) → List (Component × Nat)
  | [] => []
  | (s, stop) :: rest =>
    match Component.ofName first s with
    | some c => (c, stop) :: bodyFrom false rest
    | none => bodyFrom false rest

/-- The components below the root, with the offsets at which they end. -/
def body (p : Path) : List (Component × Nat) :=
  bodyFrom (!p.isAbsolute) (pieces 0 [] p.chars)

def components (p : Path) : List Component :=
  (if p.isAbsolute then [.root] else []) ++ p.body.map (·.1)

/-- Whether two texts name the same path. -/
def Same (p q : Path) : Prop := p.components = q.components

instance (p q : Path) : Decidable (p.Same q) := inferInstanceAs (Decidable (_ = _))

/-! ### Parts -/

def unsnoc? {α : Type} : List α → Option (List α × α)
  | [] => none
  | x :: xs =>
    match unsnoc? xs with
    | some (init, last) => some (x :: init, last)
    | none => some ([], x)

/-- The text up to and including the components `kept`. -/
def upTo (p : Path) (kept : List (Component × Nat)) : Path :=
  match kept.getLast? with
  | some (_, stop) => ⟨String.ofList (p.chars.take stop)⟩
  | none => ⟨if p.isAbsolute then "/" else ""⟩

/-- The path without its last component; a root and the empty path have none. -/
def parent? (p : Path) : Option Path :=
  (unsnoc? p.body).map fun (kept, _) => p.upTo kept

/-- The proper ancestors, nearest first. -/
def ancestors (p : Path) : List Path :=
  let b := p.body
  (List.range b.length).reverse.map fun n => p.upTo (b.take n)

/-- The last component, if it is a name, and the offset behind it. -/
def lastName? (p : Path) : Option (List Char × Nat) :=
  match p.body.getLast? with
  | some (.name s, stop) => some (s, stop)
  | _ => none

def fileName? (p : Path) : Option String :=
  p.lastName?.map fun (s, _) => String.ofList s

/-- A name cut at its last dot; a dot that begins it does not count. -/
def splitDot (s : List Char) : List Char × Option (List Char) :=
  let tail := s.reverse.takeWhile (· ≠ '.')
  let stem := s.reverse.dropWhile (· ≠ '.')
  match stem with
  | _ :: c :: stem => ((c :: stem).reverse, some tail.reverse)
  | _ => (s, none)

def extension? (p : Path) : Option String :=
  p.lastName?.bind fun (s, _) => (splitDot s).2.map String.ofList

/-- The path with the extension of its name replaced, or one added. -/
def withExtension (p : Path) (ext : String) : Path :=
  match p.lastName? with
  | some (s, stop) =>
    let stem := (splitDot s).1
    ⟨String.ofList (p.chars.take (stop - s.length + stem.length)) ++ "." ++ ext⟩
  | none => p

/-- `q` seen from `p`: itself when absolute, otherwise below `p`. -/
def join (p q : Path) : Path :=
  if q.isAbsolute then q
  else if p.chars.getLast?.any (· ≠ '/') then ⟨p.text ++ "/" ++ q.text⟩
  else ⟨p.text ++ q.text⟩

/-- The components of `p` below `base`, when `base` is an ancestor of `p` or `p` itself. -/
def below? (p base : Path) : Option (List Component) :=
  let bs := base.components
  if bs.isPrefixOf p.components then some (p.components.drop bs.length) else none

def startsWith (p base : Path) : Bool := (p.below? base).isSome

def Component.text : Component → String
  | .root => "/"
  | .here => "."
  | .up => ".."
  | .name s => String.ofList s

end Path

end LspClient
