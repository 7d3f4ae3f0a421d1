import LspClient.Shell.Script

/-!
# Arithmetic of the shell

Integer expressions with the operators of C, by precedence. A name stands for the number that is
its value, or for zero.
-/

namespace LspClient.Shell.Arithmetic

abbrev Outcome := Option (Int × Octets)

def skip (cs : Octets) : Octets := cs.dropWhile fun c => c = ' ' || c = '\t' || c = '\n'

/-- The operators of two operands, by precedence; a longer one comes before its beginnings. -/
def levels : List (List String) := [
  ["||"], ["&&"], ["|"], ["^"], ["&"], ["==", "!="], ["<=", ">=", "<", ">"], ["<<", ">>"],
  ["+", "-"], ["*", "/", "%"]]

/-- Operators that are not meant where a longer one stands. -/
def longer : List String := ["||", "&&", "<<", ">>", "<=", ">=", "=="]

def truth (b : Bool) : Int := if b then 1 else 0

def apply (op : String) (a b : Int) : Option Int :=
  match op with
  | "||" => some (truth (a ≠ 0 || b ≠ 0))
  | "&&" => some (truth (a ≠ 0 && b ≠ 0))
  | "|" => some ((a.toNat ||| b.toNat : Nat))
  | "^" => some ((a.toNat ^^^ b.toNat : Nat))
  | "&" => some ((a.toNat &&& b.toNat : Nat))
  | "==" => some (truth (a == b))
  | "!=" => some (truth (a != b))
  | "<=" => some (truth (a ≤ b))
  | ">=" => some (truth (b ≤ a))
  | "<" => some (truth (a < b))
  | ">" => some (truth (b < a))
  | "<<" => some (a * Int.pow 2 b.toNat)
  | ">>" => some (a.fdiv (Int.pow 2 b.toNat))
  | "+" => some (a + b)
  | "-" => some (a - b)
  | "*" => some (a * b)
  | "/" => if b = 0 then none else some (a.tdiv b)
  | "%" => if b = 0 then none else some (a.tmod b)
  | _ => none

/-- The operator in front, out of those of one level. -/
def operator (ops : List String) (cs : Octets) : Option (String × Octets) :=
  let starts (op : String) : Bool := op.toList.isPrefixOf cs
  match ops.find? starts with
  | none => none
  | some op =>
    if longer.any fun l => l.length > op.length && starts l then none
    else some (op, cs.drop op.length)

/-- Fold operands of one level from the left. -/
def foldLevel (ops : List String) (operand : Octets → Outcome) : Nat → Int → Octets → Outcome
  | 0, _, _ => none
  | n + 1, a, cs =>
    match operator ops (skip cs) with
    | none => some (a, cs)
    | some (op, rest) =>
      match operand rest with
      | none => none
      | some (b, rest) =>
        match apply op a b with
        | some a => foldLevel ops operand n a rest
        | none => none

/-- Expressions from one level of operators on. -/
def atLevel (unary : Octets → Outcome) (fuel : Nat) : List (List String) → Octets → Outcome
  | [], cs => unary cs
  | ops :: rest, cs =>
    match atLevel unary fuel rest cs with
    | some (a, cs) => foldLevel ops (atLevel unary fuel rest) fuel a cs
    | none => none

/-- A number in decimal, octal or hexadecimal digits. -/
def literal (cs : Octets) : Outcome :=
  let word := cs.takeWhile Char.isAlphanum
  let rest := cs.drop word.length
  let digit (c : Char) : Nat :=
    if c.isDigit then c.toNat - 48 else c.toLower.toNat - 87
  let value (base : Nat) (ds : Octets) : Outcome :=
    if ds ≠ [] ∧ ds.all fun c => c.isAlphanum && digit c < base then
      some ((ds.foldl (fun n c => n * base + digit c) 0 : Nat), rest)
    else none
  match word with
  | '0' :: 'x' :: ds => value 16 ds
  | '0' :: 'X' :: ds => value 16 ds
  | '0' :: d :: ds => value 8 (d :: ds)
  | ds => value 10 ds

/-- An operand: a number, a name, a sign or negation in front of one, or parentheses. -/
def operand (valueOf : Octets → Octets) : Nat → Octets → Outcome
  | 0, _ => none
  | fuel + 1, cs =>
    match skip cs with
    | '-' :: rest => (operand valueOf fuel rest).map fun (a, rest) => (-a, rest)
    | '+' :: rest => operand valueOf fuel rest
    | '!' :: rest => (operand valueOf fuel rest).map fun (a, rest) => (truth (a == 0), rest)
    | '~' :: rest => (operand valueOf fuel rest).map fun (a, rest) => (-a - 1, rest)
    | '(' :: rest =>
      match atLevel (operand valueOf fuel) (rest.length + 1) levels rest with
      | some (a, rest) =>
        match skip rest with
        | ')' :: rest => some (a, rest)
        | _ => none
      | none => none
    | c :: rest =>
      if c.isDigit then literal (c :: rest)
      else if c.isAlpha || c = '_' then
        let isName (c : Char) : Bool := c.isAlphanum || c = '_'
        let name := (c :: rest).takeWhile isName
        let value := skip (valueOf name)
        if value = [] then some (0, (c :: rest).drop name.length)
        else (Octets.int? value).map fun a => (a, (c :: rest).drop name.length)
      else none
    | [] => none

/-- The value of an expression; `none` where it is malformed or divides by zero. -/
def evaluate (valueOf : Octets → Octets) (cs : Octets) : Option Int :=
  if skip cs = [] then some 0
  else
    match atLevel (operand valueOf (cs.length + 1)) (cs.length + 1) levels cs with
    | some (a, rest) => if skip rest = [] then some a else none
    | none => none

end LspClient.Shell.Arithmetic
