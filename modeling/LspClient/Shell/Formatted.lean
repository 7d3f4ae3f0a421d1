import LspClient.Shell.Script

/-!
# Formatted output

What `printf` and `echo` write. A format is used again as long as there are arguments left, and a
missing argument counts as empty or zero. `\c` ends the output.
-/

namespace LspClient.Shell.Formatted

/-! ### Escapes -/

def isOctal (c : Char) : Bool := '0' ≤ c && c ≤ '7'

def octalValue (ds : Octets) : Nat := ds.foldl (fun n c => n * 8 + (c.toNat - 48)) 0

/-- The byte of up to `n` octal digits. -/
def octalByte (n : Nat) (cs : Octets) : Char × Octets :=
  let ds := (cs.take n).takeWhile isOctal
  (Char.ofNat (octalValue ds % 256), cs.drop ds.length)

/-- The character of an escape, after its backslash; `none` where it is none. -/
def simpleEscape (c : Char) : Option Char :=
  match c with
  | 'a' => some '\x07'
  | 'b' => some '\x08'
  | 'f' => some '\x0c'
  | 'n' => some '\n'
  | 'r' => some '\r'
  | 't' => some '\t'
  | 'v' => some '\x0b'
  | '\\' => some '\\'
  | _ => none

/-- A text with its escapes resolved, in reverse; octal digits follow a zero. The flag tells
whether the output goes on. -/
def unescape : Nat → Octets → Octets → Octets × Bool
  | 0, acc, _ => (acc, true)
  | _, acc, [] => (acc, true)
  | n + 1, acc, '\\' :: c :: rest =>
    if c = 'c' then (acc, false)
    else if c = '0' then
      let (b, rest) := octalByte 3 rest
      unescape n (b :: acc) rest
    else
      match simpleEscape c with
      | some e => unescape n (e :: acc) rest
      | none => unescape n (c :: '\\' :: acc) rest
  | n + 1, acc, c :: rest => unescape n (c :: acc) rest

/-! ### Conversions -/

structure Conversion where
  left : Bool
  zero : Bool
  plus : Bool
  space : Bool
  width : Nat
  precision : Option Nat

/-- The flags of a conversion. -/
def flags (c : Conversion) : Octets → Conversion × Octets
  | '-' :: rest => flags { c with left := true } rest
  | '0' :: rest => flags { c with zero := true } rest
  | '+' :: rest => flags { c with plus := true } rest
  | ' ' :: rest => flags { c with space := true } rest
  | '#' :: rest => flags c rest
  | rest => (c, rest)

/-- A number in a format, for which a star takes an argument. -/
def number (args : List Octets) (cs : Octets) : Nat × List Octets × Octets :=
  match cs with
  | '*' :: rest => (((args.head?.bind Octets.nat?).getD 0), args.drop 1, rest)
  | cs =>
    let ds := cs.takeWhile Char.isDigit
    ((Octets.nat? ds).getD 0, args, cs.drop ds.length)

def conversion (args : List Octets) (cs : Octets) : Conversion × List Octets × Octets :=
  let (c, cs) := flags ⟨false, false, false, false, 0, none⟩ cs
  let (width, args, cs) := number args cs
  match cs with
  | '.' :: rest =>
    let (precision, args, cs) := number args rest
    ({ c with width, precision := some precision }, args, cs)
  | cs => ({ c with width }, args, cs)

def pad (c : Conversion) (cs : Octets) : Octets :=
  let fill := List.replicate (c.width - cs.length) ' '
  if c.left then cs ++ fill else fill ++ cs

/-- Digits with a sign, filled up with zeros where that is asked for. -/
def padNumber (c : Conversion) (sign digits : Octets) : Octets :=
  let digits := List.replicate (c.precision.getD 1 - digits.length) '0' ++ digits
  if c.zero && !c.left && c.precision.isNone then
    sign ++ List.replicate (c.width - sign.length - digits.length) '0' ++ digits
  else pad c (sign ++ digits)

def digitsIn (base : Nat) (upper : Bool) (n : Nat) : Octets :=
  let ds := Nat.toDigits base n
  if upper then ds.map Char.toUpper else ds

/-- The number that an argument stands for, and whether it is one. -/
def numberOf (arg : Octets) : Int × Bool :=
  match arg with
  | [] => (0, true)
  | '\'' :: c :: _ => (c.toNat, true)
  | '"' :: c :: _ => (c.toNat, true)
  | arg =>
    match Octets.int? arg with
    | some n => (n, true)
    | none =>
      let (sign, rest) := match arg with
        | '-' :: rest => (-1, rest)
        | rest => ((1 : Int), rest)
      let hex := match rest with
        | '0' :: 'x' :: ds => ds
        | '0' :: 'X' :: ds => ds
        | _ => []
      let digit (c : Char) : Nat := if c.isDigit then c.toNat - 48 else c.toLower.toNat - 87
      if hex ≠ [] ∧ hex.all fun c => c.isAlphanum && digit c < 16 then
        (sign * (hex.foldl (fun n c => n * 16 + digit c) 0 : Nat), true)
      else (((Octets.int? (arg.takeWhile fun c => c.isDigit || c = '-')).getD 0), false)

structure Printed where
  output : Octets
  /-- The arguments that should have been numbers. -/
  bad : List Octets
  args : List Octets
  goesOn : Bool
  used : Bool

/-- The number that is written for an argument, as one word of 64 bits. -/
def unsignedOf (n : Int) : Nat := (n % Int.pow 2 64).toNat

/-- What one conversion writes. -/
def convert (c : Conversion) (kind : Char) (args : List Octets) : Option Printed :=
  let arg := args.head?.getD []
  let rest := args.drop 1
  let (n, good) := numberOf arg
  let bad := if good then [] else [arg]
  let numeric (sign digits : Octets) : Option Printed :=
    some ⟨padNumber c sign digits, bad, rest, true, true⟩
  let signed : Octets :=
    if n < 0 then ['-'] else if c.plus then ['+'] else if c.space then [' '] else []
  match kind with
  | '%' => some ⟨['%'], [], args, true, false⟩
  | 's' => some ⟨pad c (match c.precision with
      | some p => arg.take p
      | none => arg), [], rest, true, true⟩
  | 'c' => some ⟨pad c (arg.take 1), [], rest, true, true⟩
  | 'b' =>
    let (text, goesOn) := unescape (arg.length + 1) [] arg
    some ⟨pad c text.reverse, [], rest, goesOn, true⟩
  | 'd' => numeric signed (Octets.ofNat n.natAbs)
  | 'i' => numeric signed (Octets.ofNat n.natAbs)
  | 'u' => numeric [] (Octets.ofNat (unsignedOf n))
  | 'x' => numeric [] (digitsIn 16 false (unsignedOf n))
  | 'X' => numeric [] (digitsIn 16 true (unsignedOf n))
  | 'o' => numeric [] (digitsIn 8 false (unsignedOf n))
  | _ => none

structure Result where
  output : Octets
  bad : List Octets
  args : List Octets
  goesOn : Bool
  used : Bool
  /-- The conversion that there is not. -/
  unknown : Option Char

/-- Go through a format once; the output is in reverse. -/
def once : Nat → Result → Octets → Result
  | 0, r, _ => r
  | _, r, [] => r
  | n + 1, r, '%' :: rest =>
    let (c, args, rest) := conversion r.args rest
    match rest with
    | [] => { r with unknown := some '%' }
    | kind :: rest =>
      match convert c kind args with
      | none => { r with unknown := some kind }
      | some p =>
        let r := { r with
          output := p.output.reverse ++ r.output, bad := r.bad ++ p.bad, args := p.args
          goesOn := p.goesOn, used := r.used || p.used }
        if p.goesOn then once n r rest else r
  | n + 1, r, '\\' :: c :: rest =>
    if c = 'c' then { r with goesOn := false }
    else if isOctal c then
      let (b, rest) := octalByte 3 (c :: rest)
      once n { r with output := b :: r.output } rest
    else
      match simpleEscape c with
      | some e => once n { r with output := e :: r.output } rest
      | none =>
        if c = '"' then once n { r with output := c :: r.output } rest
        else once n { r with output := c :: '\\' :: r.output } rest
  | n + 1, r, c :: rest => once n { r with output := c :: r.output } rest

/-- Go through a format as long as it takes arguments. -/
def again (format : Octets) : Nat → Result → Result
  | 0, r => r
  | n + 1, r =>
    let r := once (format.length + 1) { r with used := false } format
    if r.goesOn && r.used && !r.args.isEmpty && r.unknown.isNone then again format n r else r

def print (format : Octets) (args : List Octets) : Result :=
  let r := again format (args.length + 1) ⟨[], [], args, true, false, none⟩
  { r with output := r.output.reverse }

/-! ### Echo -/

/-- The arguments with blanks between them, escapes being resolved, and a newline behind them. -/
def echo (args : List Octets) : Octets :=
  let (newline, args) := match args with
    | ['-', 'n'] :: rest => (false, rest)
    | args => (true, args)
  let text := List.intercalate [' '] args
  let (text, goesOn) := unescape (text.length + 1) [] text
  (if newline && goesOn then '\n' :: text else text).reverse

/-- The options of the echo that leaves escapes alone unless it is told otherwise. -/
def echoOptions : Bool → Bool → List Octets → Bool × Bool × List Octets
  | newline, escapes, ('-' :: c :: cs) :: rest =>
    if (c :: cs).all fun c => c = 'n' || c = 'e' || c = 'E' then
      let escapes := (c :: cs).foldl
        (fun e c => if c = 'e' then true else if c = 'E' then false else e) escapes
      echoOptions (newline && !(c :: cs).contains 'n') escapes rest
    else (newline, escapes, ('-' :: c :: cs) :: rest)
  | newline, escapes, args => (newline, escapes, args)

def plainEcho (args : List Octets) : Octets :=
  let (newline, escapes, args) := echoOptions true false args
  let text := List.intercalate [' '] args
  if escapes then
    let (text, goesOn) := unescape (text.length + 1) [] text
    (if newline && goesOn then '\n' :: text else text).reverse
  else if newline then text ++ ['\n'] else text

end LspClient.Shell.Formatted
