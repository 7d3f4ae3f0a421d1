import LspClient.Json.Parser

/-!
# Strings and keys of TOML

The four kinds of strings, and keys with dots. A reader takes the characters from where the string
or key begins and gives it with what follows.

No string holds a control character as it is, other than a tab, or a line break between triple
quotes. There a line break directly behind the opening quotes does not count, and up to two quotes
may stand directly before the closing ones.
-/

namespace LspClient.Toml

/-- A character that may stand as it is in strings and comments. -/
def isPlain (c : Char) : Bool := c = '\t' || (0x20 ≤ c.toNat && c.toNat ≠ 0x7F)

def isBlank (c : Char) : Bool := c = ' ' || c = '\t'

def dropBlank (cs : List Char) : List Char := cs.dropWhile isBlank

/-! ### Escapes -/

/-- The value of `n` hexadecimal digits. -/
def hexDigits : Nat → Nat → List Char → Option (Nat × List Char)
  | 0, value, cs => some (value, cs)
  | _ + 1, _, [] => none
  | n + 1, value, c :: rest =>
    match Json.hexValue c with
    | some d => hexDigits n (value * 16 + d) rest
    | none => none

/-- The character of an escape with `n` hexadecimal digits. -/
def coded (n : Nat) (cs : List Char) : Option (Char × List Char) :=
  match hexDigits n 0 cs with
  | some (value, rest) => if value.isValidChar then some (Char.ofNat value, rest) else none
  | none => none

/-- The character that an escape stands for, after its backslash. -/
def escape : List Char → Option (Char × List Char)
  | '"' :: rest => some ('"', rest)
  | '\\' :: rest => some ('\\', rest)
  | 'b' :: rest => some ('\x08', rest)
  | 'e' :: rest => some ('\x1b', rest)
  | 'f' :: rest => some ('\x0c', rest)
  | 'n' :: rest => some ('\n', rest)
  | 'r' :: rest => some ('\r', rest)
  | 't' :: rest => some ('\t', rest)
  | 'x' :: rest => coded 2 rest
  | 'u' :: rest => coded 4 rest
  | 'U' :: rest => coded 8 rest
  | _ => none

/-! ### Strings on one line -/

/-- The characters of a quoted string in reverse, and what follows it. -/
def quotedBody : Nat → List Char → List Char → Option (List Char × List Char)
  | 0, _, _ => none
  | _, _, [] => none
  | fuel + 1, acc, c :: rest =>
    if c = '"' then some (acc, rest)
    else if c = '\\' then
      match escape rest with
      | some (e, rest) => quotedBody fuel (e :: acc) rest
      | none => none
    else if isPlain c then quotedBody fuel (c :: acc) rest
    else none

/-- The same for a string in apostrophes, which has no escapes. -/
def literalBody : List Char → List Char → Option (List Char × List Char)
  | _, [] => none
  | acc, c :: rest =>
    if c = '\'' then some (acc, rest)
    else if isPlain c then literalBody (c :: acc) rest
    else none

/-! ### Strings of several lines -/

def dropLineBreak : List Char → List Char
  | '\n' :: rest => rest
  | '\r' :: '\n' :: rest => rest
  | cs => cs

def isGap (c : Char) : Bool := isBlank c || c = '\n' || c = '\r'

/-- What follows a backslash that ends its line: the next character that is no white space. -/
def joinLines (cs : List Char) : Option (List Char) :=
  match dropBlank cs with
  | '\n' :: rest => some (rest.dropWhile isGap)
  | '\r' :: '\n' :: rest => some (rest.dropWhile isGap)
  | _ => none

/-- The body of a string between triple `quote`s. -/
def linesBody (quote : Char) (escapes : Bool) :
    Nat → List Char → List Char → Option (List Char × List Char)
  | 0, _, _ => none
  | _, _, [] => none
  | fuel + 1, acc, c :: rest =>
    if c = quote then
      let run := (c :: rest).takeWhile (· = quote)
      let after := (c :: rest).dropWhile (· = quote)
      if run.length < 3 then linesBody quote escapes fuel (run ++ acc) after
      else
        let inside := min (run.length - 3) 2
        some (run.take inside ++ acc, run.drop (inside + 3) ++ after)
    else if escapes && c = '\\' then
      match joinLines rest with
      | some rest => linesBody quote escapes fuel acc rest
      | none =>
        match escape rest with
        | some (e, rest) => linesBody quote escapes fuel (e :: acc) rest
        | none => none
    else if c = '\n' then linesBody quote escapes fuel ('\n' :: acc) rest
    else if c = '\r' then
      match rest with
      | '\n' :: rest => linesBody quote escapes fuel ('\n' :: acc) rest
      | _ => none
    else if isPlain c then linesBody quote escapes fuel (c :: acc) rest
    else none

def finished (body : Option (List Char × List Char)) : Option (String × List Char) :=
  body.map fun (acc, rest) => (String.ofList acc.reverse, rest)

/-- A string of any kind, from its opening quote on; `none` in place of `some none` where there is
no quote. -/
def string? (cs : List Char) : Option (Option (String × List Char)) :=
  let fuel := cs.length + 1
  match cs with
  | '"' :: '"' :: '"' :: rest => some (finished (linesBody '"' true fuel [] (dropLineBreak rest)))
  | '\'' :: '\'' :: '\'' :: rest =>
    some (finished (linesBody '\'' false fuel [] (dropLineBreak rest)))
  | '"' :: rest => some (finished (quotedBody fuel [] rest))
  | '\'' :: rest => some (finished (literalBody [] rest))
  | _ => none

/-! ### Keys -/

def isBare (c : Char) : Bool := c.isAlphanum || c = '_' || c = '-'

/-- One part of a key. -/
def keyPart (cs : List Char) : Option (String × List Char) :=
  match cs with
  | '"' :: rest => finished (quotedBody (rest.length + 1) [] rest)
  | '\'' :: rest => finished (literalBody [] rest)
  | cs =>
    match cs.span isBare with
    | ([], _) => none
    | (bare, rest) => some (String.ofList bare, rest)

/-- A key, part by part, with the blanks around it. -/
def keyParts : Nat → List Char → Option (List String × List Char)
  | 0, _ => none
  | fuel + 1, cs =>
    match keyPart (dropBlank cs) with
    | none => none
    | some (part, rest) =>
      match dropBlank rest with
      | '.' :: rest => (keyParts fuel rest).map fun (parts, rest) => (part :: parts, rest)
      | rest => some ([part], rest)

def key (cs : List Char) : Option (List String × List Char) := keyParts (cs.length + 1) cs

end LspClient.Toml
