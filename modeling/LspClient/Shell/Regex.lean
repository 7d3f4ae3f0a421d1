import LspClient.Shell.Pattern

/-!
# Regular expressions

The basic and the extended kind. An expression matches from the left and as much as it can; what
its groups matched is kept by their numbers. `fuel` bounds the number of steps.
-/

namespace LspClient.Shell

inductive Regex where
  | item (i : PatternItem)
  | begins
  | ends
  | group (n : Nat) (r : List (List Regex))
  | backref (n : Nat)
  /-- Between `least` and `most` times, as often as possible. -/
  | times (r : Regex) (least : Nat) (most : Option Nat)

/-- Alternatives, each a sequence. -/
abbrev Regexes := List (List Regex)

namespace Regex

/-! ### Matching -/

/-- What has been matched by the groups. -/
abbrev Captures := List (Nat × Octets)

/-- Where a match stands: the characters before, nearest first, those to come, and the groups. -/
structure At where
  before : Octets
  after : Octets
  captures : Captures

def At.ahead (a : At) (n : Nat) : At :=
  { a with before := (a.after.take n).reverse ++ a.before, after := a.after.drop n }

/-- What lies between two positions. -/
def between (a b : At) : Octets := a.after.take (a.after.length - b.after.length)

def sameChar (ignoreCase : Bool) (i : PatternItem) (c : Char) : Bool :=
  i.accepts c || (ignoreCase && (i.accepts c.toLower || i.accepts c.toUpper))

mutual
/-- The positions at which one expression can end, the preferred ones first. -/
def one (fold : Bool) : Nat → Regex → At → List At
  | 0, _, _ => []
  | fuel + 1, r, a =>
    match r with
    | .item i =>
      match a.after with
      | c :: _ => if sameChar fold i c then [a.ahead 1] else []
      | [] => []
    | .begins => if a.before.isEmpty then [a] else []
    | .ends => if a.after.isEmpty then [a] else []
    | .backref n =>
      let text := (a.captures.lookup n).getD []
      if text.isPrefixOf a.after then [a.ahead text.length] else []
    | .group n rs =>
      (any fold fuel rs a).map fun b => { b with captures := (n, between a b) :: b.captures }
    | .times r least most =>
      let more :=
        if most = some 0 then []
        else
          ((one fold fuel r a).filter fun b => b.after.length < a.after.length || 0 < least).flatMap
            fun b => one fold fuel (.times r (least - 1) (most.map (· - 1))) b
      if least = 0 then more ++ [a] else more

def seq (fold : Bool) : Nat → List Regex → At → List At
  | 0, _, _ => []
  | _, [], a => [a]
  | fuel + 1, r :: rest, a => (one fold fuel r a).flatMap (seq fold fuel rest)

def any (fold : Bool) : Nat → Regexes → At → List At
  | 0, _, _ => []
  | _, [], _ => []
  | fuel + 1, r :: rest, a => seq fold fuel r a ++ any fold fuel rest a
end

/-- The first position from which there is a match, and where the match ends. -/
def search (fold : Bool) (rs : Regexes) : Nat → At → Option (At × At)
  | 0, _ => none
  | n + 1, a =>
    match any fold (4 * a.after.length + 200) rs a with
    | b :: _ => some (a, b)
    | [] => if a.after.isEmpty then none else search fold rs n (a.ahead 1)

def find (fold : Bool) (rs : Regexes) (cs : Octets) : Option (At × At) :=
  search fold rs (cs.length + 1) ⟨[], cs, []⟩

/-! ### Reading -/

/-- A count between braces: the least and the most. -/
def counts (cs : Octets) : Option ((Nat × Option Nat) × Octets) :=
  let digits := cs.takeWhile Char.isDigit
  let least := (Octets.nat? digits).getD 0
  match cs.drop digits.length with
  | ',' :: rest =>
    let more := rest.takeWhile Char.isDigit
    some ((least, Octets.nat? more), rest.drop more.length)
  | rest => some ((least, some least), rest)

/-- How often what came before is repeated, if something says so. -/
def repetition (extended : Bool) : Octets → Option ((Nat × Option Nat) × Octets)
  | '*' :: rest => some ((0, none), rest)
  | '+' :: rest => if extended then some ((1, none), rest) else none
  | '?' :: rest => if extended then some ((0, some 1), rest) else none
  | '\x7b' :: rest =>
    if extended then
      match counts rest with
      | some (c, '\x7d' :: rest) => some (c, rest)
      | _ => none
    else none
  | '\\' :: '+' :: rest => if extended then none else some ((1, none), rest)
  | '\\' :: '?' :: rest => if extended then none else some ((0, some 1), rest)
  | '\\' :: '\x7b' :: rest =>
    if extended then none
    else
      match counts rest with
      | some (c, '\\' :: '\x7d' :: rest) => some (c, rest)
      | _ => none
  | _ => none

/-- A word that opens, closes or parts groups, with what is left behind it. -/
def mark (extended : Bool) (c : Char) : Octets → Option Octets
  | '\\' :: d :: rest => if !extended && d = c then some rest else none
  | d :: rest => if extended && d = c then some rest else none
  | [] => none

def single (c : Char) (rest : Octets) : Option (Regex × Octets) := some (.item (.char c), rest)

/-- An expression of one character. -/
def atom (extended : Bool) (first : Bool) (cs : Octets) : Option (Regex × Octets) :=
  match cs with
  | [] => none
  | '.' :: rest => some (.item .any, rest)
  | '[' :: rest =>
    match setOf (rest.map fun c => (c, false)) with
    | some (members, rest) => some (.item members, rest.map (·.1))
    | none => none
  | '^' :: rest => if extended || first then some (.begins, rest) else single '^' rest
  | '$' :: rest =>
    let last := rest.isEmpty || (mark extended ')' rest).isSome || (mark extended '|' rest).isSome
    if extended || last then some (.ends, rest) else single '$' rest
  | '\\' :: c :: rest =>
    if c = 'n' then single '\n' rest
    else if c = 't' then single '\t' rest
    else if '1' ≤ c && c ≤ '9' then some (.backref (c.toNat - 48), rest)
    else single c rest
  | c :: rest => single c rest

mutual
/-- Alternatives up to a closing mark; the number is that of the next group. -/
def alternatives (extended : Bool) : Nat → Nat → Octets → Option (Regexes × Nat × Octets)
  | 0, _, _ => none
  | fuel + 1, n, cs =>
    match sequence extended fuel n [] cs with
    | none => none
    | some (r, n, rest) =>
      match mark extended '|' rest with
      | some rest => (alternatives extended fuel n rest).map fun (rs, n, rest) => (r :: rs, n, rest)
      | none => some ([r], n, rest)

def sequence (extended : Bool) : Nat → Nat → List Regex → Octets →
    Option (List Regex × Nat × Octets)
  | 0, _, _, _ => none
  | fuel + 1, n, acc, cs =>
    if cs.isEmpty || (mark extended '|' cs).isSome || (mark extended ')' cs).isSome then
      some (acc.reverse, n, cs)
    else
      match element extended fuel n acc.isEmpty cs with
      | none => none
      | some (r, n, rest) =>
        let (r, rest) := repeated extended fuel r rest
        sequence extended fuel n (r :: acc) rest

/-- One expression without its repetition. -/
def element (extended : Bool) : Nat → Nat → Bool → Octets → Option (Regex × Nat × Octets)
  | 0, _, _, _ => none
  | fuel + 1, n, first, cs =>
    match mark extended '(' cs with
    | some rest =>
      match alternatives extended fuel (n + 1) rest with
      | some (rs, m, rest) => (mark extended ')' rest).map fun rest => (.group n rs, m, rest)
      | none => none
    | none =>
      match cs, first with
      | '*' :: rest, true => some (.item (.char '*'), n, rest)
      | cs, first => (atom extended first cs).map fun (r, rest) => (r, n, rest)

/-- Apply the repetitions that follow an expression. -/
def repeated (extended : Bool) : Nat → Regex → Octets → Regex × Octets
  | 0, r, cs => (r, cs)
  | fuel + 1, r, cs =>
    match repetition extended cs with
    | some ((least, most), rest) => repeated extended fuel (.times r least most) rest
    | none => (r, cs)
end

/-- The expression that a text stands for. -/
def ofText (extended : Bool) (cs : Octets) : Option Regexes :=
  match alternatives extended (4 * cs.length + 10) 1 cs with
  | some (rs, _, []) => some rs
  | _ => none

/-- The expression that matches nothing but a text. -/
def literal (cs : Octets) : Regexes := [cs.map fun c => .item (.char c)]

end Regex

end LspClient.Shell
