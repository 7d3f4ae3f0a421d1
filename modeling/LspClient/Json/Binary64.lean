/-!
# Double-precision numbers

A `Binary64` is the 64-bit pattern of a floating-point number. Everything here is exact arithmetic
on natural numbers: `magnitude` splits a finite number into `m · 2^e`, `round` takes a quotient to
the nearest number (a tie goes to the even one), and `digits` finds the shortest decimal that reads
back, the nearest of those where there are several.

`render` writes such a number in the form used throughout: a point or an exponent is always
present, positional from `10^-5` up to below `10^16`, otherwise with a signed exponent.
-/

namespace LspClient

structure Binary64 where
  bits : UInt64
  deriving DecidableEq, Repr, Inhabited

namespace Binary64

def negative (x : Binary64) : Bool := x.bits >>> 63 == 1

def exponentField (x : Binary64) : Nat := ((x.bits >>> 52) &&& 0x7FF).toNat

def fraction (x : Binary64) : Nat := (x.bits &&& 0xFFFFFFFFFFFFF).toNat

def isFinite (x : Binary64) : Bool := x.exponentField < 2047

def isInfinite (x : Binary64) : Bool := x.exponentField == 2047 && x.fraction == 0

/-- The pair `(m, e)` with absolute value `m · 2^e`, for a finite number. -/
def magnitude (x : Binary64) : Nat × Int :=
  if x.exponentField = 0 then (x.fraction, -1074)
  else (Nat.pow 2 52 + x.fraction, (x.exponentField : Int) - 1075)

def isZero (x : Binary64) : Bool := x.magnitude.1 == 0

def signBit (negative : Bool) : UInt64 := if negative then 0x8000000000000000 else 0

def infinity (negative : Bool) : Binary64 := ⟨signBit negative ||| 0x7FF0000000000000⟩

def notANumber : Binary64 := ⟨0x7FF8000000000000⟩

def zero (negative : Bool) : Binary64 := ⟨signBit negative⟩

/-- `x` with the opposite sign. -/
def neg (x : Binary64) : Binary64 := ⟨x.bits ^^^ 0x8000000000000000⟩

/-! ### Rounding -/

/-- `num / den` to the nearest natural number, a tie to the even one. -/
def roundQuotient (num den : Nat) : Nat :=
  let q := num / den
  let r := num % den
  if 2 * r > den || (2 * r == den && q % 2 == 1) then q + 1 else q

/-- `num / den` as a quotient of naturals after division by `2^e`. -/
def scaleBy (num den : Nat) (e : Int) : Nat × Nat :=
  if 0 ≤ e then (num, den * Nat.pow 2 e.toNat) else (num * Nat.pow 2 (-e).toNat, den)

/-- The exponent at which `num / den` has 53 binary digits, but at least that of the subnormals. -/
def unitExponent (num den : Nat) : Int :=
  let guess : Int := (num.log2 : Int) - (den.log2 : Int) - 52
  let (n, d) := scaleBy num den guess
  let e := if n / d < Nat.pow 2 52 then guess - 1 else guess
  max e (-1074)

/-- The number nearest to `num / den`; infinite when out of range. -/
def round (negative : Bool) (num den : Nat) : Binary64 :=
  if num = 0 then zero negative
  else
    let e := unitExponent num den
    let (n, d) := scaleBy num den e
    let q := roundQuotient n d
    let (q, e) := if q = Nat.pow 2 53 then (Nat.pow 2 52, e + 1) else (q, e)
    if e > 971 then infinity negative
    else
      let pattern :=
        if q < Nat.pow 2 52 then q else (e + 1075).toNat * Nat.pow 2 52 + (q - Nat.pow 2 52)
      ⟨signBit negative ||| UInt64.ofNat pattern⟩

def ofNat (n : Nat) : Binary64 := round false n 1

/-- The nearest number to `10^k`. -/
def tenPow (k : Nat) : Binary64 := ofNat (Nat.pow 10 k)

/-- `m · 2^e` as a quotient. -/
def quotient (m : Nat) (e : Int) : Nat × Nat :=
  if 0 ≤ e then (m * Nat.pow 2 e.toNat, 1) else (m, Nat.pow 2 (-e).toNat)

/-- The product of two finite numbers, rounded; the sign is that of `x`. -/
def mul (x y : Binary64) : Binary64 :=
  let (a, e) := x.magnitude
  let (b, f) := y.magnitude
  let (n, d) := quotient (a * b) (e + f)
  round x.negative n d

/-- The quotient of two finite numbers, `y` not zero, rounded; the sign is that of `x`. -/
def div (x y : Binary64) : Binary64 :=
  let (a, e) := x.magnitude
  let (b, f) := y.magnitude
  let (n, d) := quotient a (e - f)
  round x.negative n (d * b)

/-! ### Shortest decimal -/

/-- The ends of the interval of reals that round to `m · 2^e`, in units of `2^(e-2)`. The gap below
a power of two is half as wide as the one above. -/
def interval (m : Nat) (e : Int) : Nat × Nat :=
  if m = Nat.pow 2 52 ∧ e > -1074 then (4 * m - 1, 4 * m + 2) else (4 * m - 2, 4 * m + 2)

/-- The smallest `p` with `num / den < 10^p`, `num / den` being positive. -/
def decimalExponent (num den : Nat) : Int :=
  let guess : Int := ((num.log2 : Int) - (den.log2 : Int)) * 30103 / 100000
  let below (p : Int) : Bool :=
    if 0 ≤ p then num < den * Nat.pow 10 p.toNat else num * Nat.pow 10 (-p).toNat < den
  ([guess - 1, guess, guess + 1, guess + 2].find? below).getD (guess + 3)

/-- Search for a decimal `d · 10^(p-n)` inside the interval, `n` digits at a time. All bounds are
multiples of `1 / den`. -/
def searchDigits (value low high den : Nat) (ends : Bool) (p : Int) : Nat → Nat → Nat × Int
  | 0, n => (0, p - n)
  | more + 1, n =>
    let shift := p - (n : Int)
    let (num, unit) :=
      if 0 ≤ shift then (value, den * Nat.pow 10 shift.toNat)
      else (value * Nat.pow 10 (-shift).toNat, den)
    let down := num / unit
    let scaled (d : Nat) : Nat := d * unit
    let scale (b : Nat) : Nat := if 0 ≤ shift then b else b * Nat.pow 10 (-shift).toNat
    let inside (d : Nat) : Bool :=
      if ends then scale low ≤ scaled d && scaled d ≤ scale high
      else scale low < scaled d && scaled d < scale high
    let up := down + 1
    match inside down, inside up with
    | true, true =>
      let below := num - scaled down
      let above := scaled up - num
      if below < above || (below == above && down % 2 == 0) then (down, shift) else (up, shift)
    | true, false => (down, shift)
    | false, true => (up, shift)
    | false, false => searchDigits value low high den ends p more (n + 1)

/-- The shortest decimal `d · 10^k` that rounds to a finite positive number. -/
def shortest (x : Binary64) : Nat × Int :=
  let (m, e) := x.magnitude
  let (low, high) := interval m e
  let (factor, den) := quotient 1 (e - 2)
  let p := decimalExponent (4 * m * factor) den
  searchDigits (4 * m * factor) (low * factor) (high * factor) den (m % 2 == 0) p 17 1

/-! ### The written form -/

/-- A digit string without the zeros it ends in, and how many those were. -/
def dropZeros : List Char → List Char × Nat
  | [] => ([], 0)
  | c :: rest =>
    match dropZeros rest with
    | ([], n) => if c = '0' then ([], n + 1) else ([c], n)
    | (ds, n) => (c :: ds, n)

def zeros (n : Nat) : List Char := List.replicate n '0'

/-- Lay out the digits `ds` of a number below `10^point` and not below `10^(point-1)`. -/
def layout (ds : List Char) (point : Int) : List Char :=
  if point > 16 || point < -4 then
    let exponent := point - 1
    let mantissa := match ds with
      | [] => []
      | [d] => [d]
      | d :: rest => d :: '.' :: rest
    mantissa ++ 'e' :: (if exponent < 0 then '-' else '+') :: (toString exponent.natAbs).toList
  else if point ≤ 0 then '0' :: '.' :: zeros (-point).toNat ++ ds
  else if ds.length ≤ point.toNat then ds ++ zeros (point.toNat - ds.length) ++ ['.', '0']
  else ds.take point.toNat ++ '.' :: ds.drop point.toNat

/-- The written form of a finite number. -/
def render (x : Binary64) : String :=
  let sign := if x.negative then ['-'] else []
  if x.isZero then String.ofList (sign ++ ['0', '.', '0'])
  else
    let (d, k) := x.shortest
    let all := (toString d).toList
    let (ds, dropped) := dropZeros all
    let point := (ds.length : Int) + (dropped : Int) + k
    String.ofList (sign ++ layout ds point)

end Binary64

end LspClient
