/-!
# UTF-8

A byte list is read one byte at a time. `Begun` is the character under way: its value so far, the
bytes it is still owed, and the range the next of them must lie in. A byte outside that range rules
the sequence out, and `Malformed` says where the sequence began and how many of its bytes were
fit to begin a character; `width = none` is an input that ends inside a character.

`decode` is strict. `decodeLossy` puts U+FFFD for each longest sequence that begins no character
and goes on with the byte that ruled it out.
-/

namespace LspClient.Utf8

/-- The bytes of a text. -/
def encode (s : String) : List UInt8 :=
  s.toList.flatMap String.utf8EncodeChar

/-- A character whose first byte has been read. -/
structure Begun where
  value : Nat
  owed : Nat
  low : UInt8
  high : UInt8
  width : Nat

/-- Where a byte list stops being UTF-8. -/
structure Malformed where
  index : Nat
  width : Option Nat
  deriving DecidableEq, Repr

/-- What a byte between characters starts. -/
inductive Lead where
  | whole (c : Char)
  | begun (b : Begun)
  | unfit

def lead (b : UInt8) : Lead :=
  let tail : Nat → Nat → UInt8 → UInt8 → Lead := fun value owed low high =>
    .begun { value, owed, low, high, width := 1 }
  if b < 0x80 then .whole (Char.ofNat b.toNat)
  else if b < 0xC2 then .unfit
  else if b < 0xE0 then tail (b.toNat - 0xC0) 1 0x80 0xBF
  else if b = 0xE0 then tail 0 2 0xA0 0xBF
  else if b = 0xED then tail 0xD 2 0x80 0x9F
  else if b < 0xF0 then tail (b.toNat - 0xE0) 2 0x80 0xBF
  else if b = 0xF0 then tail 0 3 0x90 0xBF
  else if b < 0xF4 then tail (b.toNat - 0xF0) 3 0x80 0xBF
  else if b = 0xF4 then tail 4 3 0x80 0x8F
  else .unfit

/-- The character under way after one more byte of it. -/
def Begun.push (p : Begun) (b : UInt8) : Lead :=
  if p.low ≤ b ∧ b ≤ p.high then
    let value := p.value * 64 + (b.toNat - 0x80)
    if p.owed ≤ 1 then .whole (Char.ofNat value)
    else .begun { value, owed := p.owed - 1, low := 0x80, high := 0xBF, width := p.width + 1 }
  else .unfit

/-! ### Strict decoding -/

/-- Decode from byte `index` on, with `p` the character begun before it; `acc` holds the characters
found so far, last one first. -/
def decodeFrom (acc : List Char) (index : Nat) :
    Option Begun → List UInt8 → Except Malformed (List Char)
  | none, [] => .ok acc.reverse
  | some p, [] => .error ⟨index - p.width, none⟩
  | none, b :: rest =>
    match lead b with
    | .whole c => decodeFrom (c :: acc) (index + 1) none rest
    | .begun p => decodeFrom acc (index + 1) (some p) rest
    | .unfit => .error ⟨index, some 1⟩
  | some p, b :: rest =>
    match p.push b with
    | .whole c => decodeFrom (c :: acc) (index + 1) none rest
    | .begun q => decodeFrom acc (index + 1) (some q) rest
    | .unfit => .error ⟨index - p.width, some p.width⟩

def decodeChars (bytes : List UInt8) : Except Malformed (List Char) :=
  decodeFrom [] 0 none bytes

def decode (bytes : List UInt8) : Except Malformed String :=
  (decodeChars bytes).map String.ofList

def decode? (bytes : List UInt8) : Option String :=
  (decode bytes).toOption

/-- The complaint about malformed bytes, as messages quote it. -/
def Malformed.message (m : Malformed) : String :=
  match m.width with
  | some n => s!"invalid utf-8 sequence of {n} bytes from index {m.index}"
  | none => s!"incomplete utf-8 byte sequence from index {m.index}"

/-! ### Lossy decoding -/

def replacement : Char := '\uFFFD'

/-- As `decodeFrom`, with a replacement for what begins no character. -/
def lossyFrom (acc : List Char) : Option Begun → List UInt8 → List Char
  | none, [] => acc.reverse
  | some _, [] => (replacement :: acc).reverse
  | none, b :: rest =>
    match lead b with
    | .whole c => lossyFrom (c :: acc) none rest
    | .begun p => lossyFrom acc (some p) rest
    | .unfit => lossyFrom (replacement :: acc) none rest
  | some p, b :: rest =>
    match p.push b with
    | .whole c => lossyFrom (c :: acc) none rest
    | .begun q => lossyFrom acc (some q) rest
    | .unfit =>
      match lead b with
      | .whole c => lossyFrom (c :: replacement :: acc) none rest
      | .begun q => lossyFrom (replacement :: acc) (some q) rest
      | .unfit => lossyFrom (replacement :: replacement :: acc) none rest

def decodeLossy (bytes : List UInt8) : String :=
  String.ofList (lossyFrom [] none bytes)

end LspClient.Utf8
