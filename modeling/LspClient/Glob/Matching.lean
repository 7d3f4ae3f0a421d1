import LspClient.Glob.Token
import LspClient.Path
import LspClient.Text.Utf8

/-!
# Matching

A token takes some bytes off the front of a path; which ones is open, so `Token.rests` gives all
the remainders it can leave. A path matches when nothing is left behind the last token.

Paths are matched byte by byte: a question mark stands for one byte, and a class holds the bytes of
its characters. A branch without any text of its own is no alternative.
-/

namespace LspClient.Glob

def slash : UInt8 := 47

/-- The remainders of a list, the whole of it first, up to the first byte that fails `p`. -/
def restsWhile (p : UInt8 → Bool) : List UInt8 → List (List UInt8)
  | [] => [[]]
  | b :: rest => (b :: rest) :: if p b then restsWhile p rest else []

/-- The remainders of a list behind each of its slashes. -/
def restsBehindSlash : List UInt8 → List (List UInt8)
  | [] => []
  | b :: rest => (if b = slash then [rest] else []) ++ restsBehindSlash rest

/-! ### Classes -/

/-- The byte ranges of a character range: from its last byte on a first end, to the first byte of
the other, with the other bytes of both for themselves. -/
def byteRanges (r : Char × Char) : List (UInt8 × UInt8) :=
  let single (bytes : List UInt8) := bytes.map fun b => (b, b)
  let first := Utf8.encode (String.singleton r.1)
  if r.1 = r.2 then single first
  else
    match Path.unsnoc? first, Utf8.encode (String.singleton r.2) with
    | some (init, low), high :: rest => single init ++ [(low, high)] ++ single rest
    | _, _ => []

def inClass (negated : Bool) (ranges : List (Char × Char)) (b : UInt8) : Bool :=
  ((ranges.flatMap byteRanges).any fun r => r.1 ≤ b && b ≤ r.2) != negated

/-! ### Tokens -/

mutual
/-- Whether a token has no text of its own. -/
def Token.isBlank : Token → Bool
  | .alternatives branches => allBlank branches
  | _ => false

def isBlank : List Token → Bool
  | [] => true
  | t :: ts => t.isBlank && isBlank ts

def allBlank : List (List Token) → Bool
  | [] => true
  | b :: bs => isBlank b && allBlank bs
end

mutual
/-- What a token can leave of a path. -/
def Token.rests : Token → List UInt8 → List (List UInt8)
  | .literal c, s =>
    let bytes := Utf8.encode (String.singleton c)
    if bytes.isPrefixOf s then [s.drop bytes.length] else []
  | .any, s =>
    match s with
    | b :: rest => if b = slash then [] else [rest]
    | [] => []
  | .star, s => restsWhile (· ≠ slash) s
  | .leadingStars, s => s :: restsBehindSlash s
  | .trailingStars, s =>
    match s with
    | b :: rest => if b = slash then restsWhile (fun _ => true) rest else []
    | [] => []
  | .innerStars, s =>
    match s with
    | b :: rest => if b = slash then rest :: restsBehindSlash rest else []
    | [] => []
  | .cls negated ranges, s =>
    match s with
    | b :: rest => if inClass negated ranges b then [rest] else []
    | [] => []
  | .alternatives branches, s =>
    if allBlank branches then [s] else restsOfBranches branches s

/-- What tokens one after another can leave of a path. -/
def rests : List Token → List UInt8 → List (List UInt8)
  | [], s => [s]
  | t :: ts, s => ((t.rests s).flatMap (rests ts)).eraseDups

/-- What one of several branches can leave of a path. -/
def restsOfBranches : List (List Token) → List UInt8 → List (List UInt8)
  | [], _ => []
  | b :: bs, s => (if isBlank b then [] else rests b s) ++ restsOfBranches bs s
end

/-- Whether a path, its names joined by slashes, matches. Two stars alone match everything. -/
def isMatch (ts : List Token) (path : List UInt8) : Bool :=
  match ts with
  | [.leadingStars] => true
  | ts => (rests ts path).contains []

end LspClient.Glob
