import LspClient.Failure
import LspClient.Text.Utf8

/-!
# File URIs

`ofPath` writes the URI of an absolute path. `toPath?` reads a URI as a path, in whatever way it is
spelled: the URI is taken apart as a browser would do it, and yields a path when it has no host or
names the local one.

A component such as `C:` is taken for a drive, which no dots lead out of.

A path component is percent-encoded so that it can stand between two slashes: letters, digits and
most punctuation stand for themselves, every other byte is written in hexadecimal. `decode` undoes
any such writing; a percent sign that begins no escape stands for itself.
-/

namespace LspClient.Uri

/-! ### Percent-encoding -/

/-- The bytes that stand for themselves in a path component. -/
def isPlain (b : UInt8) : Bool :=
  0x20 < b && b < 0x7F && !"\"<>`#?\x7b\x7d/%\\".toList.contains (Char.ofNat b.toNat)

def upperHexDigit (n : Nat) : Char := "0123456789ABCDEF".toList.getD n '0'

def encodeByte (b : UInt8) : List Char :=
  if isPlain b then [Char.ofNat b.toNat]
  else ['%', upperHexDigit (b.toNat / 16), upperHexDigit (b.toNat % 16)]

def encodeSegment (s : String) : List Char := (Utf8.encode s).flatMap encodeByte

def hexDigit? (b : UInt8) : Option UInt8 :=
  if 0x30 ≤ b && b ≤ 0x39 then some (b - 0x30)
  else if 0x41 ≤ b && b ≤ 0x46 then some (b - 0x37)
  else if 0x61 ≤ b && b ≤ 0x66 then some (b - 0x57)
  else none

/-- The byte that two hexadecimal digits write. -/
def hexByte? (high low : UInt8) : Option UInt8 := do
  let high ← hexDigit? high
  let low ← hexDigit? low
  return high * 16 + low

def decode : List UInt8 → List UInt8
  | 0x25 :: high :: low :: rest =>
    match hexByte? high low with
    | some b => b :: decode rest
    | none => 0x25 :: decode (high :: low :: rest)
  | b :: rest => b :: decode rest
  | [] => []

/-! ### From paths -/

def ofPath (p : Path) : Except Failure String :=
  if p.isAbsolute then
    let names := p.body.flatMap fun (c, _) => '/' :: encodeSegment c.text
    .ok ("file://" ++ String.ofList (if names.isEmpty then ['/'] else names))
  else .error (.invalidUri p)

/-! ### Schemes -/

/-- How the rest of a URI is read. -/
inductive Kind where
  | file
  /-- A scheme of the web: a host is required, and a backslash is a slash. -/
  | web
  | other
  deriving DecidableEq, Repr

def Kind.isSpecial : Kind → Bool
  | .other => false
  | _ => true

def isLetter (c : Char) : Bool := ('a' ≤ c && c ≤ 'z') || ('A' ≤ c && c ≤ 'Z')

def isSchemeChar (c : Char) : Bool :=
  isLetter c || ('0' ≤ c && c ≤ '9') || c = '+' || c = '-' || c = '.'

def kindOf (scheme : String) : Kind :=
  if scheme = "file" then .file
  else if ["http", "https", "ws", "wss", "ftp"].contains scheme then .web
  else .other

/-- The kind of a URI, and what follows the colon of its scheme. -/
def splitScheme (cs : List Char) : Option (Kind × List Char) :=
  match cs with
  | [] => none
  | c :: _ =>
    if isLetter c then
      match cs.dropWhile isSchemeChar with
      | ':' :: rest =>
        some (kindOf (String.ofList ((cs.takeWhile isSchemeChar).map Char.toLower)), rest)
      | _ => none
    else none

/-! ### Hosts -/

inductive Host where
  | none
  | localhost
  | other
  deriving DecidableEq, Repr

/-- Characters that no host may hold. -/
def isForbidden (c : Char) : Bool := "\x00\t\n\r #/:<>?@[\\]^|".toList.contains c

def isForbiddenInDomain (c : Char) : Bool :=
  isForbidden c || c.toNat < 0x20 || c = '%' || c.toNat = 0x7F

/-- The number that part of an address in dotted form writes. -/
def addressPart? (cs : List Char) : Option Nat :=
  let (base, ds) := match cs with
    | '0' :: 'x' :: ds => (16, ds)
    | '0' :: 'X' :: ds => (16, ds)
    | '0' :: d :: ds => (8, d :: ds)
    | ds => (10, ds)
  ds.foldlM (fun n c => do
    let d ← hexDigit? (UInt8.ofNat c.toNat)
    if c.toNat < 0x80 ∧ d.toNat < base then some (n * base + d.toNat) else Option.none) 0

/-- Whether a domain whose last label is a number is a good address. -/
def isAddress (labels : List (List Char)) : Bool :=
  match labels.mapM fun l => if l.isEmpty then Option.none else addressPart? l with
  | some ns => ns.length ≤ 4 && ns.dropLast.all (· ≤ 255) &&
      ns.getLast?.all (· < Nat.pow 256 (5 - ns.length))
  | Option.none => false

def endsInNumber (labels : List (List Char)) : Bool :=
  match labels.getLast? with
  | some l => !l.isEmpty && (l.all (fun c => '0' ≤ c && c ≤ '9') ||
      ((l.take 2 = ['0', 'x'] || l.take 2 = ['0', 'X']) && (addressPart? l).isSome))
  | Option.none => false

/-- The host of a special URI; `none` on the outside is an invalid one. -/
def domain? (cs : List Char) : Option Host :=
  match cs with
  | '[' :: _ => if cs.getLast? = some ']' ∧ cs.contains ':' then some .other else Option.none
  | cs =>
    let bytes := decode (Utf8.encode (String.ofList cs))
    let name := (Utf8.decodeLossy bytes).toList.map Char.toLower
    if name.isEmpty || name.any isForbiddenInDomain then Option.none
    else if name = "localhost".toList then some .localhost
    else
      let labels := (name.splitOn '.')
      let labels := if labels.getLast? = some [] then labels.dropLast else labels
      if endsInNumber labels && !isAddress labels then Option.none else some .other

/-- The host of any other URI, which is not interpreted. -/
def opaqueHost? (cs : List Char) : Option Host :=
  match cs with
  | [] => some .none
  | '[' :: _ => if cs.getLast? = some ']' ∧ cs.contains ':' then some .other else Option.none
  | cs =>
    if cs.any isForbidden then Option.none
    else if cs = "localhost".toList then some .localhost
    else some .other

/-! ### Paths -/

def isDrive (s : List Char) : Bool :=
  match s with
  | [c, d] => isLetter c && (d = ':' || d = '|')
  | _ => false

def isDot (s : List Char) : Bool := s = ['.'] || s.map Char.toLower = ['%', '2', 'e']

def isDoubleDot (s : List Char) : Bool :=
  match s with
  | ['.', '.'] => true
  | '.' :: rest => isDot rest
  | '%' :: a :: b :: rest => isDot ['%', a, b] && isDot rest
  | _ => false

/-- The components of a path as they are read, last one first. -/
def readSegments (kind : Kind) (acc : List (List Char)) : List (List Char) → List (List Char)
  | [] => acc
  | s :: rest =>
    let final := rest.isEmpty
    let acc' :=
      if isDoubleDot s then
        let shorter := match acc with
          | [] => []
          | last :: before => if isDrive last then last :: before else before
        if final then [] :: shorter else shorter
      else if isDot s then if final then [] :: acc else acc
      else if kind = .file ∧ acc = [] ∧ isDrive s then [s.take 1 ++ [':']]
      else s :: acc
    readSegments kind acc' rest

def isSlash (kind : Kind) (c : Char) : Bool := c = '/' || (kind.isSpecial && c = '\\')

def splitPath (kind : Kind) (cs : List Char) : List (List Char) :=
  (cs.map fun c => if isSlash kind c then '/' else c).splitOn '/'

/-- The components of the path that `cs` begins with. -/
def pathOf (kind : Kind) (cs : List Char) : List (List Char) :=
  let cs := cs.takeWhile fun c => c ≠ '?' && c ≠ '#'
  let cs := match cs with
    | c :: rest => if isSlash kind c then rest else cs
    | [] => []
  let segments := (readSegments kind [] (splitPath kind cs)).reverse
  if kind = .file then
    match segments.dropWhile List.isEmpty with
    | [] => [[]]
    | segments => segments
  else segments

/-! ### Whole URIs -/

structure Parsed where
  host : Host
  segments : List (List Char)

/-- Whether what follows the colon of a host is a number below 65536, or nothing. -/
def isServiceNumber (cs : List Char) : Bool :=
  cs.all (fun c => '0' ≤ c && c ≤ '9') &&
    cs.foldl (fun n c => min 65536 (n * 10 + (c.toNat - '0'.toNat))) 0 ≤ 65535

/-- Cut an authority at the colon behind its host, brackets kept together. -/
def splitHost (cs : List Char) : List Char × Option (List Char) :=
  let inside := match cs with
    | '[' :: _ => cs.takeWhile (· ≠ ']')
    | _ => []
  let rest := cs.drop inside.length
  match rest.dropWhile (· ≠ ':') with
  | _ :: number => (inside ++ rest.takeWhile (· ≠ ':'), some number)
  | [] => (cs, none)

/-- Read what follows the two slashes before a host. -/
def readAuthority (kind : Kind) (cs : List Char) : Option Parsed :=
  let stops (c : Char) : Bool := isSlash kind c || c = '?' || c = '#'
  let authority := cs.takeWhile fun c => !stops c
  let rest := cs.dropWhile fun c => !stops c
  let behindUser := (authority.reverse.takeWhile (· ≠ '@')).reverse
  let (name, number) := splitHost behindUser
  if number.any (fun n => !isServiceNumber n) then none
  else
    match if kind.isSpecial then domain? name else opaqueHost? name with
    | none => none
    | some host =>
      if host = .none ∧ (authority.contains '@' ∨ number.isSome) then none
      else
        match kind, rest with
        | .other, [] => some ⟨host, []⟩
        | .other, '?' :: _ => some ⟨host, []⟩
        | .other, '#' :: _ => some ⟨host, []⟩
        | _, rest => some ⟨host, pathOf kind rest⟩

def readFile (cs : List Char) : Option Parsed :=
  match cs with
  | a :: b :: rest =>
    if isSlash .file a && isSlash .file b then
      let stops (c : Char) : Bool := isSlash .file c || c = '?' || c = '#'
      let name := rest.takeWhile fun c => !stops c
      let behind := rest.dropWhile fun c => !stops c
      if isDrive name then some ⟨.none, pathOf .file rest⟩
      else if name.isEmpty then some ⟨.none, pathOf .file behind⟩
      else
        (domain? name).map fun host =>
          let path := pathOf .file behind
          let drive := path.head?.any isDrive
          ⟨if host = .localhost ∨ drive then .none else host, path⟩
    else some ⟨.none, pathOf .file cs⟩
  | cs => some ⟨.none, pathOf .file cs⟩

/-- A URI without the blanks and controls around it and without tabs and line ends. -/
def clean (cs : List Char) : List Char :=
  let outer (c : Char) : Bool := c.toNat ≤ 0x20
  let trimmed := ((cs.dropWhile outer).reverse.dropWhile outer).reverse
  trimmed.filter fun c => c ≠ '\t' && c ≠ '\n' && c ≠ '\r'

def parse (uri : String) : Option Parsed := do
  let (kind, rest) ← splitScheme (clean uri.toList)
  match kind with
  | .file => readFile rest
  | .web => readAuthority .web (rest.dropWhile (isSlash .web))
  | .other =>
    match rest with
    | '/' :: '/' :: rest => readAuthority .other rest
    | '/' :: _ => some ⟨.none, pathOf .other rest⟩
    | _ => some ⟨.none, []⟩

/-! ### To paths -/

/-- Whether a path ends in a letter and a colon or bar. -/
def endsInDrive (bytes : List UInt8) : Bool :=
  match bytes.reverse with
  | d :: c :: _ :: _ => isLetter (Char.ofNat c.toNat) && (d = 0x3A || d = 0x7C)
  | _ => false

def Parsed.toPath? (u : Parsed) : Option Path :=
  if u.host = .other ∨ u.segments = [] then none
  else
    let bytes := u.segments.flatMap fun s => 0x2F :: decode (Utf8.encode (String.ofList s))
    let bytes := if endsInDrive bytes then bytes ++ [0x2F] else bytes
    some ⟨Utf8.decodeLossy bytes⟩

def toPath? (uri : String) : Option Path := (parse uri).bind Parsed.toPath?

end LspClient.Uri
