/-!
# The syntax of glob patterns

A pattern is read into tokens. A question mark stands for a byte other than a slash, a star for any
number of them, two stars that make up a component of their own for any number of components, a
class in brackets for one of its characters, and alternatives stand in braces between commas. What
follows a backslash is literal.
-/

namespace LspClient.Glob

inductive Token where
  | literal (c : Char)
  | any
  | star
  /-- Two stars at the beginning. -/
  | leadingStars
  /-- Two stars at the end. -/
  | trailingStars
  /-- Two stars between slashes. -/
  | innerStars
  | cls (negated : Bool) (ranges : List (Char × Char))
  | alternatives (branches : List (List Token))
  deriving Repr, Inhabited

inductive SyntaxError where
  | unclosedClass
  | invalidRange (first last : Char)
  | unopenedAlternatives
  | unclosedAlternatives
  | danglingEscape
  deriving DecidableEq, Repr

def SyntaxError.message : SyntaxError → String
  | .unclosedClass => "unclosed character class; missing ']'"
  | .invalidRange a b => s!"invalid range; '{a}' > '{b}'"
  | .unopenedAlternatives =>
    "unopened alternate group; missing '\x7b' (maybe escape '\x7d' with '[\x7d]'?)"
  | .unclosedAlternatives =>
    "unclosed alternate group; missing '\x7d' (maybe escape '\x7b' with '[\x7b]'?)"
  | .danglingEscape => "dangling '\\'"

/-! ### Classes -/

/-- A class under way: its ranges, last first, whether the last waits for its end after a dash, and
whether nothing was read so far. -/
structure ClassState where
  ranges : List (Char × Char)
  dash : Bool
  fresh : Bool

def ClassState.push (s : ClassState) (c : Char) : Except SyntaxError ClassState :=
  match s.dash, s.ranges with
  | true, (a, _) :: rest =>
    if c < a then .error (.invalidRange a c) else .ok ⟨(a, c) :: rest, false, false⟩
  | _, ranges => .ok ⟨(c, c) :: ranges, false, false⟩

/-- Read a class up to its closing bracket, which does not count as one where it comes first. -/
def readClass (s : ClassState) : List Char → Except SyntaxError (List (Char × Char) × List Char)
  | [] => .error .unclosedClass
  | c :: rest =>
    if c = ']' ∧ !s.fresh then
      let ranges := if s.dash then ('-', '-') :: s.ranges else s.ranges
      .ok (ranges.reverse, rest)
    else if c = '-' ∧ !s.fresh ∧ !s.dash then readClass { s with dash := true } rest
    else
      match s.push c with
      | .ok s => readClass s rest
      | .error e => .error e

/-- Read what follows an opening bracket. -/
def readBrackets (cs : List Char) : Except SyntaxError (Token × List Char) :=
  let (negated, cs) := match cs with
    | '!' :: rest => (true, rest)
    | '^' :: rest => (true, rest)
    | cs => (false, cs)
  match readClass ⟨[], false, true⟩ cs with
  | .ok (ranges, rest) => .ok (.cls negated ranges, rest)
  | .error e => .error e

/-! ### Patterns -/

/-- A group of alternatives under way: the finished branches, last first, and the tokens that came
before the group, last first. -/
structure OpenGroup where
  branches : List (List Token)
  outer : List Token

/-- A pattern under way. `tokens` are those of the branch under way, last first, and `prev` is the
character before. -/
structure ParseState where
  groups : List OpenGroup
  tokens : List Token
  prev : Option Char

namespace ParseState

def push (s : ParseState) (t : Token) : ParseState := { s with tokens := t :: s.tokens }

def openGroup (s : ParseState) : ParseState :=
  { s with groups := ⟨[], s.tokens⟩ :: s.groups, tokens := [] }

def nextBranch (s : ParseState) : ParseState :=
  match s.groups with
  | [] => s.push (.literal ',')
  | g :: groups =>
    let g := { g with branches := s.tokens.reverse :: g.branches }
    { s with groups := g :: groups, tokens := [] }

def closeGroup (s : ParseState) : Except SyntaxError ParseState :=
  match s.groups with
  | [] => .error .unopenedAlternatives
  | g :: groups =>
    let branches := (s.tokens.reverse :: g.branches).reverse
    .ok { s with groups, tokens := .alternatives branches :: g.outer }

/-- Put two stars behind a slash, which they take up. -/
def pushStars (s : ParseState) (stars : Token) : ParseState :=
  match s.tokens with
  | .leadingStars :: rest => { s with tokens := .leadingStars :: rest }
  | .trailingStars :: rest => { s with tokens := .trailingStars :: rest }
  | _ :: rest => { s with tokens := stars :: rest }
  | [] => { s with tokens := [stars] }

def behind (s : ParseState) (c : Char) : ParseState := { s with prev := some c }

/-- Whether two stars that come now begin a component. -/
def atComponent (s : ParseState) : Bool :=
  s.prev == some '/' || (!s.groups.isEmpty && (s.prev == some ',' || s.prev == some '{'))

/-- Take in two stars, with `rest` to follow; what is left of `rest` is given back. They stand for
components where they begin a component and are followed by a slash or the end. -/
def stars (s : ParseState) (rest : List Char) : ParseState × List Char :=
  let plain := ((s.push .star).push .star).behind '*'
  if s.tokens.isEmpty then
    match rest with
    | [] => (s.push .leadingStars, [])
    | '/' :: tail => ((s.push .leadingStars).behind '/', tail)
    | rest => (plain, rest)
  else if !s.atComponent then (plain, rest)
  else
    match rest with
    | [] => (s.pushStars .trailingStars, [])
    | '/' :: tail => ((s.pushStars .innerStars).behind '/', tail)
    | c :: tail =>
      if (c = ',' ∨ c = '}') ∧ !s.groups.isEmpty then
        ((s.pushStars .trailingStars).behind '*', c :: tail)
      else (plain, c :: tail)

end ParseState

/-- Read the rest of a pattern; `fuel` bounds the number of characters left. -/
def readTokens : Nat → ParseState → List Char → Except SyntaxError (List Token)
  | _, s, [] => if s.groups.isEmpty then .ok s.tokens.reverse else .error .unclosedAlternatives
  | 0, _, _ :: _ => .ok []
  | fuel + 1, s, c :: rest =>
    match c with
    | '?' => readTokens fuel ((s.push .any).behind c) rest
    | '*' =>
      match rest with
      | '*' :: rest =>
        let (s, rest) := s.stars rest
        readTokens fuel s rest
      | rest => readTokens fuel ((s.push .star).behind c) rest
    | '[' =>
      match readBrackets rest with
      | .ok (t, rest) => readTokens fuel ((s.push t).behind ']') rest
      | .error e => .error e
    | '{' => readTokens fuel (s.openGroup.behind c) rest
    | '}' =>
      match s.closeGroup with
      | .ok s => readTokens fuel (s.behind c) rest
      | .error e => .error e
    | ',' => readTokens fuel (s.nextBranch.behind c) rest
    | '\\' =>
      match rest with
      | [] => .error .danglingEscape
      | d :: rest => readTokens fuel ((s.push (.literal d)).behind d) rest
    | c => readTokens fuel ((s.push (.literal c)).behind c) rest

def parse (pattern : String) : Except SyntaxError (List Token) :=
  let cs := pattern.toList
  readTokens cs.length ⟨[], [], none⟩ cs

end LspClient.Glob
