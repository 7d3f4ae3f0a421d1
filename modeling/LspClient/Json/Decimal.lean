import LspClient.Json.Basic

/-!
# Reading numbers

`number` reads a JSON number off the front of a character list. An integer literal that fits 64
bits is an integer; everything else is a double: the leading digits that fit a 64-bit word,
rounded, times or over a power of ten, rounded again. A literal whose value is out of range is
refused; one that is too small is zero.
-/

namespace LspClient.Json

def isDigit (c : Char) : Bool := '0' ≤ c && c ≤ '9'

def digitValue (c : Char) : Nat := c.toNat - '0'.toNat

def maxWord : Nat := 0xFFFFFFFFFFFFFFFF

/-- `word · 10^exponent`, each factor rounded before they meet; `none` when out of range.
Below `10^-308` the division is done in steps, one for each unit of `steps`. -/
def scaled (negative : Bool) (word : Nat) (exponent : Int) : Option Binary64 :=
  let start := Binary64.ofNat word
  let signed (x : Binary64) : Binary64 := if negative then x.neg else x
  if start.isZero then some (signed start)
  else if 0 ≤ exponent then
    if exponent > 308 then none
    else
      let x := start.mul (Binary64.tenPow exponent.toNat)
      if x.isInfinite then none else some (signed x)
  else
    let k := exponent.natAbs
    let steps := min (k / 308) 3
    let big := Binary64.tenPow 308
    let x := (List.range steps).foldl (fun x _ => x.div big) start
    let rest := k - 308 * steps
    some (signed (if rest > 308 then Binary64.zero false else x.div (Binary64.tenPow rest)))

/-- Digits taken into a word while they fit it: the word, how many were taken, and what follows. -/
def takeDigits (word count : Nat) : List Char → Nat × Nat × List Char
  | [] => (word, count, [])
  | c :: rest =>
    if isDigit c then
      let next := word * 10 + digitValue c
      if next ≤ maxWord then takeDigits next (count + 1) rest else (word, count, c :: rest)
    else (word, count, c :: rest)

/-- The value of an exponent's digits, no more than `limit`. -/
def exponentValue (limit : Nat) (ds : List Char) : Nat :=
  ds.foldl (fun n c => min limit (n * 10 + digitValue c)) 0

/-- The optional exponent after a mantissa. -/
def exponentPart (negative : Bool) (word : Nat) (exponent : Int) (cs : List Char) :
    Option (Number × List Char) :=
  match cs with
  | e :: rest =>
    if e = 'e' || e = 'E' then
      let (down, rest) := match rest with
        | '-' :: rest => (true, rest)
        | '+' :: rest => (false, rest)
        | rest => (false, rest)
      let ds := rest.takeWhile isDigit
      let rest := rest.dropWhile isDigit
      if ds.isEmpty then none
      else
        let k := exponentValue 1000000 ds
        let total := if down then exponent - k else exponent + k
        (scaled negative word total).map fun x => (.float x, rest)
    else (scaled negative word exponent).map fun x => (.float x, cs)
  | [] => (scaled negative word exponent).map fun x => (.float x, [])

/-- The optional fraction after the integer digits. -/
def fractionPart (negative : Bool) (word : Nat) (exponent : Int) (integral : Bool)
    (cs : List Char) : Option (Number × List Char) :=
  match cs with
  | '.' :: rest =>
    match rest with
    | d :: _ =>
      if isDigit d then
        let (word, taken, rest) := takeDigits word 0 rest
        exponentPart negative word (exponent - taken) (rest.dropWhile isDigit)
      else none
    | [] => none
  | e :: _ =>
    if integral && !(e = 'e' || e = 'E') then some (whole, cs)
    else exponentPart negative word exponent cs
  | [] => if integral then some (whole, []) else exponentPart negative word exponent []
where
  whole : Number :=
    if !negative then .int word
    else if word = 0 || word > Nat.pow 2 63 then .float (Binary64.ofNat word).neg
    else .int (-(word : Int))

/-- A number without its sign. -/
def unsigned (negative : Bool) (cs : List Char) : Option (Number × List Char) :=
  match cs with
  | '0' :: rest =>
    match rest with
    | d :: _ => if isDigit d then none else fractionPart negative 0 0 true rest
    | [] => fractionPart negative 0 0 true []
  | d :: _ =>
    if isDigit d then
      let (word, _, rest) := takeDigits 0 0 cs
      let extra := rest.takeWhile isDigit
      fractionPart negative word extra.length extra.isEmpty (rest.dropWhile isDigit)
    else none
  | [] => none

def number : List Char → Option (Number × List Char)
  | '-' :: rest => unsigned true rest
  | cs => unsigned false cs

end LspClient.Json
