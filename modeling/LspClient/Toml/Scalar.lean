import LspClient.Json.Decimal
import LspClient.Toml.Text

/-!
# Numbers, dates and truth values of TOML

What stands in a document without quotes. An integer is one of 64 bits, with a sign or without. A
number with a point or an exponent is the nearest double, and refused when it is out of range.

A date or time becomes an object with one member, `dateKey`, that holds it in its usual form: a
`T` in the middle, and no zeros at the end of a fraction.
-/

namespace LspClient.Toml

/-! ### Numbers -/

/-- Digits that may have single underscores between them, without these. -/
def separated (isDigit : Char → Bool) : List Char → Option (List Char)
  | [] => none
  | [d] => if isDigit d then some [d] else none
  | d :: '_' :: rest =>
    if isDigit d then (separated isDigit rest).map (d :: ·) else none
  | d :: rest => if isDigit d then (separated isDigit rest).map (d :: ·) else none

def valueIn (base : Nat) (ds : List Char) : Nat :=
  ds.foldl (fun n d => n * base + (Json.hexValue d).getD 0) 0

def isOctal (c : Char) : Bool := '0' ≤ c && c ≤ '7'

def isBinary (c : Char) : Bool := c = '0' || c = '1'

def isHex (c : Char) : Bool := (Json.hexValue c).isSome

/-- Decimal digits with nothing in front that could be left out. -/
def decimalDigits (cs : List Char) : Option (List Char) :=
  match separated Json.isDigit cs with
  | some ['0'] => some ['0']
  | some ('0' :: _) => none
  | ds => ds

def ofInteger (n : Int) : Option Json :=
  if -Int.pow 2 63 ≤ n ∧ n < Int.pow 2 64 then some (.int n) else none

def integerIn (base : Nat) (isDigit : Char → Bool) (cs : List Char) : Option Json :=
  (separated isDigit cs).bind fun ds => ofInteger (valueIn base ds)

/-- The double nearest to `value · 10^exponent`, where `value` has `count` digits. -/
def nearest (negative : Bool) (value count : Nat) (exponent : Int) : Option Binary64 :=
  if value = 0 then some (.zero negative)
  else if exponent + count > 400 then none
  else if exponent + count < -400 then some (.zero negative)
  else
    let x := if 0 ≤ exponent then Binary64.round negative (value * Nat.pow 10 exponent.toNat) 1
      else Binary64.round negative value (Nat.pow 10 (-exponent).toNat)
    if x.isInfinite then none else some x

/-- The exponent that follows an `e`. -/
def exponentOf (cs : List Char) : Option Int :=
  let value (cs : List Char) : Option Int :=
    (separated Json.isDigit cs).map fun ds => (Json.exponentValue 1000000 ds : Nat)
  match cs with
  | '-' :: rest => (value rest).map fun n => -n
  | '+' :: rest => value rest
  | cs => value cs

def isExponentMark (c : Char) : Bool := c = 'e' || c = 'E'

/-- A number with a fraction, an exponent, or both. -/
def float (negative : Bool) (cs : List Char) : Option Json := do
  let (whole, rest) := cs.span fun c => c != '.' && !isExponentMark c
  let whole ← decimalDigits whole
  let (fraction, rest) ← match rest with
    | '.' :: rest =>
      let (fraction, rest) := rest.span fun c => !isExponentMark c
      (separated Json.isDigit fraction).map fun ds => (ds, rest)
    | rest => some ([], rest)
  let exponent ← match rest with
    | [] => some 0
    | _ :: rest => exponentOf rest
  let ds := whole ++ fraction
  let x ← nearest negative (valueIn 10 ds) ds.length (exponent - fraction.length)
  return .num (.float x)

/-- A number whose sign has been read. -/
def signed (negative : Bool) (cs : List Char) : Option Json :=
  if cs = ['i', 'n', 'f'] then some (.num (.float (.infinity negative)))
  else if cs = ['n', 'a', 'n'] then some (.num (.float .notANumber))
  else
    match decimalDigits cs with
    | some ds =>
      let n : Int := valueIn 10 ds
      ofInteger (if negative then -n else n)
    | none => float negative cs

/-! ### Dates and times -/

/-- The member that holds a date or time. -/
def dateKey : String := "$__toml_private_datetime"

/-- The number that exactly `n` digits give. -/
def digits (n : Nat) (cs : List Char) : Option (Nat × List Char) :=
  let ds := cs.take n
  if ds.length = n ∧ ds.all Json.isDigit then some (valueIn 10 ds, cs.drop n) else none

def isLeap (year : Nat) : Bool := year % 4 = 0 && (year % 100 ≠ 0 || year % 400 = 0)

def daysOf (year month : Nat) : Nat :=
  match month with
  | 2 => if isLeap year then 29 else 28
  | 4 | 6 | 9 | 11 => 30
  | _ => 31

/-- A date, as it is written. -/
def date (cs : List Char) : Option (List Char × List Char) :=
  match digits 4 cs with
  | some (year, '-' :: rest) =>
    match digits 2 rest with
    | some (month, '-' :: rest) =>
      match digits 2 rest with
      | some (day, rest) =>
        if 1 ≤ month ∧ month ≤ 12 ∧ 1 ≤ day ∧ day ≤ daysOf year month then
          some (cs.take 10, rest)
        else none
      | none => none
    | _ => none
  | _ => none

/-- A fraction of a second: nine digits at most, and none that could be left out but the first. -/
def fractionText (ds : List Char) : List Char :=
  match ((ds.take 9).reverse.dropWhile (· = '0')).reverse with
  | [] => ['.', '0']
  | ds => '.' :: ds

/-- Hours and minutes. -/
def hoursAndMinutes (cs : List Char) : Option (List Char × List Char) :=
  match digits 2 cs with
  | some (hour, ':' :: rest) =>
    match digits 2 rest with
    | some (minute, rest) => if hour ≤ 23 ∧ minute ≤ 59 then some (cs.take 5, rest) else none
    | none => none
  | _ => none

/-- A time of day, in which seconds may be missing. -/
def time (cs : List Char) : Option (List Char × List Char) :=
  match hoursAndMinutes cs with
  | none => none
  | some (head, ':' :: rest) =>
    match digits 2 rest with
    | none => none
    | some (second, after) =>
      if second > 60 then none
      else
        let head := head ++ ':' :: rest.take 2
        match after with
        | '.' :: after =>
          match after.span Json.isDigit with
          | ([], _) => none
          | (ds, after) => some (head ++ fractionText ds, after)
        | after => some (head, after)
  | some (head, rest) => some (head, rest)

/-- How far a time is from the universal one. -/
def offset : List Char → Option (List Char)
  | [] => some []
  | ['Z'] => some ['Z']
  | ['z'] => some ['Z']
  | sign :: rest =>
    if sign = '+' ∨ sign = '-' then
      match hoursAndMinutes rest with
      | some (t, []) =>
        some ((if t = ['0', '0', ':', '0', '0'] then '+' else sign) :: t)
      | _ => none
    else none

/-- The usual form of a date, a time, or both. -/
def dateText (cs : List Char) : Option (List Char) :=
  match date cs with
  | some (d, []) => some d
  | some (d, sep :: rest) =>
    if sep = 'T' ∨ sep = 't' ∨ sep = ' ' then
      match time rest with
      | some (t, rest) => (offset rest).map fun o => d ++ 'T' :: t ++ o
      | none => none
    else none
  | none =>
    match time cs with
    | some (t, []) => some t
    | _ => none

/-! ### Any scalar -/

def ofScalar (cs : List Char) : Option Json :=
  match dateText cs with
  | some t => some (.object [(dateKey, .str (String.ofList t))])
  | none =>
    match cs with
    | ['t', 'r', 'u', 'e'] => some (.bool true)
    | ['f', 'a', 'l', 's', 'e'] => some (.bool false)
    | '0' :: 'x' :: rest => integerIn 16 isHex rest
    | '0' :: 'o' :: rest => integerIn 8 isOctal rest
    | '0' :: 'b' :: rest => integerIn 2 isBinary rest
    | '-' :: rest => signed true rest
    | '+' :: rest => signed false rest
    | cs => signed false cs

def isScalarChar (c : Char) : Bool :=
  c.isAlphanum || c = '_' || c = '+' || c = '-' || c = '.' || c = ':'

/-- A scalar off the front. A date may be parted from its time by a single space. -/
def scalar (cs : List Char) : Option (Json × List Char) :=
  let (word, rest) := cs.span isScalarChar
  let (word, rest) := match rest with
    | ' ' :: d :: after =>
      if Json.isDigit d ∧ (date word).any fun (_, more) => more.isEmpty then
        let (more, after) := (d :: after).span isScalarChar
        (word ++ ' ' :: more, after)
      else (word, rest)
    | _ => (word, rest)
  (ofScalar word).map fun v => (v, rest)

end LspClient.Toml
