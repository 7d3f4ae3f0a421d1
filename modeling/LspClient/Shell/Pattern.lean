import LspClient.Shell.Script

/-!
# Patterns of the shell

A pattern matches texts: a star any text, a question mark any one character, a set in brackets one
of its members. `rests` gives what is left of a text behind each beginning that a pattern matches,
the longest rest first.
-/

namespace LspClient.Shell

/-- A member of a set: characters from one to another, or a class that has a name. -/
inductive SetItem where
  | range (low high : Char)
  | named (name : Octets)
  deriving DecidableEq, Repr

inductive PatternItem where
  | char (c : Char)
  | any
  | many
  | set (negated : Bool) (members : List SetItem)
  deriving DecidableEq, Repr

abbrev Pattern := List PatternItem

/-- The classes that have names, for characters of ASCII. -/
def namedClass (name : Octets) (c : Char) : Bool :=
  match String.ofList name with
  | "alpha" => c.isAlpha
  | "digit" => c.isDigit
  | "alnum" => c.isAlphanum
  | "upper" => c.isUpper
  | "lower" => c.isLower
  | "space" => c = ' ' || ('\t' ≤ c && c ≤ '\r')
  | "blank" => c = ' ' || c = '\t'
  | "punct" => '!' ≤ c && c ≤ '~' && !c.isAlphanum
  | "print" => ' ' ≤ c && c ≤ '~'
  | "graph" => '!' ≤ c && c ≤ '~'
  | "cntrl" => c < ' ' || c = '\x7f'
  | "xdigit" => c.isDigit || ('a' ≤ c && c ≤ 'f') || ('A' ≤ c && c ≤ 'F')
  | _ => false

def SetItem.holds (c : Char) : SetItem → Bool
  | .range low high => low ≤ c && c ≤ high
  | .named name => namedClass name c

def PatternItem.accepts (c : Char) : PatternItem → Bool
  | .char d => d = c
  | .any => true
  | .many => false
  | .set negated members => (members.any (SetItem.holds c)) != negated

/-! ### Matching -/

def suffixes : Octets → List Octets
  | [] => [[]]
  | c :: rest => (c :: rest) :: suffixes rest

/-- What one item leaves of each of the texts, which are rests of one text, longest first. -/
def PatternItem.leave (item : PatternItem) (texts : List Octets) : List Octets :=
  match item, texts with
  | .many, [] => []
  | .many, longest :: _ => suffixes longest
  | item, texts => texts.filterMap fun
    | c :: rest => if item.accepts c then some rest else none
    | [] => none

namespace Pattern

def rests (p : Pattern) (cs : Octets) : List Octets := p.foldl (fun ts item => item.leave ts) [cs]

def matches_ (p : Pattern) (cs : Octets) : Bool := (rests p cs).getLast? == some []

/-- A text without the beginning that a pattern matches, if it matches one. -/
def trimFront (p : Pattern) (longest : Bool) (cs : Octets) : Octets :=
  let ts := rests p cs
  ((if longest then ts.getLast? else ts.head?).getD cs)

/-- The same for the end of a text. -/
def trimEnd (p : Pattern) (longest : Bool) (cs : Octets) : Octets :=
  (trimFront (List.reverse p) longest cs.reverse).reverse

end Pattern

/-! ### Reading patterns -/

/-- The members of a set up to the closing bracket, and what follows it. A character that is
marked is quoted. -/
def setMembers :
    Nat → List SetItem → List (Char × Bool) → Option (List SetItem × List (Char × Bool))
  | 0, _, _ => none
  | n + 1, acc, cs =>
    match cs with
    | [] => none
    | (']', false) :: rest =>
      if acc = [] then setMembers n [.range ']' ']'] rest else some (acc.reverse, rest)
    | ('[', false) :: (':', false) :: rest =>
      let name := (rest.map (·.1)).takeWhile Char.isAlpha
      match rest.drop name.length with
      | (':', false) :: (']', false) :: rest => setMembers n (.named name :: acc) rest
      | _ => setMembers n (.range '[' '[' :: acc) ((':', false) :: rest)
    | (low, _) :: ('-', false) :: (high, q) :: rest =>
      if high = ']' && !q then
        setMembers n (.range low low :: acc) (('-', false) :: (high, q) :: rest)
      else setMembers n (.range low high :: acc) rest
    | (c, _) :: rest => setMembers n (.range c c :: acc) rest

/-- A set, after its opening bracket. -/
def setOf (cs : List (Char × Bool)) : Option (PatternItem × List (Char × Bool)) :=
  let (negated, cs) := match cs with
    | ('!', false) :: rest => (true, rest)
    | ('^', false) :: rest => (true, rest)
    | cs => (false, cs)
  (setMembers (cs.length + 1) [] cs).map fun (members, rest) => (.set negated members, rest)

def patternFrom : Nat → List (Char × Bool) → Pattern
  | 0, _ => []
  | _, [] => []
  | n + 1, (c, quoted) :: rest =>
    if quoted then .char c :: patternFrom n rest
    else if c = '*' then .many :: patternFrom n rest
    else if c = '?' then .any :: patternFrom n rest
    else if c = '[' then
      match setOf rest with
      | some (item, rest) => item :: patternFrom n rest
      | none => .char c :: patternFrom n rest
    else .char c :: patternFrom n rest

/-- The pattern of characters, of which the marked ones are quoted. -/
def patternOf (cs : List (Char × Bool)) : Pattern := patternFrom cs.length cs

def isSpecialItem : PatternItem → Bool
  | .char _ => false
  | _ => true

end LspClient.Shell
