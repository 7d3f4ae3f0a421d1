import LspClient.Shell.Script

/-!
# Reading scripts

A reader takes the characters that are left and gives what it read with what is left behind it.
Everything is `none` where the script is not well formed. `fuel` bounds the nesting and the length
of what is read, and is the length of the script.
-/

namespace LspClient.Shell

abbrev Read (α : Type) := Option (α × Octets)

/-! ### Blanks, names and reserved words -/

def isBlank (c : Char) : Bool := c = ' ' || c = '\t'

/-- A character that ends a word unless it is quoted. -/
def isDelimiter (c : Char) : Bool :=
  isBlank c || c = '\n' || c = ';' || c = '&' || c = '|' || c = '<' || c = '>' || c = '(' ||
    c = ')'

/-- What follows blanks, continued lines and a comment. -/
def skipBlanks : Octets → Octets
  | [] => []
  | '\\' :: '\n' :: rest => skipBlanks rest
  | c :: rest =>
    if isBlank c then skipBlanks rest
    else if c = '#' then rest.dropWhile (· ≠ '\n')
    else c :: rest

/-- The same, with line breaks. -/
def skipLines : Nat → Octets → Octets
  | 0, cs => cs
  | n + 1, cs =>
    match skipBlanks cs with
    | '\n' :: rest => skipLines n rest
    | rest => rest

def isNameStart (c : Char) : Bool := c.isAlpha || c = '_'

def isNameChar (c : Char) : Bool := c.isAlphanum || c = '_'

/-- A special parameter, called by one character. -/
def isSpecial (c : Char) : Bool :=
  c = '@' || c = '*' || c = '#' || c = '?' || c = '$' || c = '!' || c = '-' || c.isDigit

/-- The plain word in front. -/
def plainWord (cs : Octets) : Octets :=
  cs.takeWhile fun c => !isDelimiter c

/-- The words that end a list of statements. -/
def closers : List String := ["then", "else", "elif", "fi", "do", "done", "esac", "\x7d"]

/-- What is left behind the reserved word `word`, if it comes next. -/
def reserved (word : String) (cs : Octets) : Option Octets :=
  let cs := skipBlanks cs
  if plainWord cs = word.toList then some (cs.drop word.length) else none

def atEnd (cs : Octets) : Bool :=
  match cs with
  | [] => true
  | ')' :: _ => true
  | ';' :: ';' :: _ => true
  | cs => closers.any fun w => plainWord cs == w.toList

/-! ### Words -/

/-- Where parts are read: in a word, between double quotes, between braces, or in arithmetic. -/
inductive Place where
  | word
  | quotes
  | braces (quoted : Bool)
  | arithmetic
  deriving DecidableEq, Repr

def Place.quoted : Place → Bool
  | .word => false
  | .quotes => true
  | .braces q => q
  | .arithmetic => true

/-- Whether a character ends the parts of a place; what it is stays to be read. -/
def Place.endsAt (place : Place) (cs : Octets) : Bool :=
  match place, cs with
  | _, [] => true
  | .word, c :: _ => isDelimiter c
  | .quotes, c :: _ => c = '"'
  | .braces _, c :: _ => c = '\x7d'
  | .arithmetic, c :: d :: _ => c = ')' && d = ')'
  | .arithmetic, _ => false

def backquote : Char := '\x60'

/-- A script between backquotes, with what is quoted in it once unquoted. -/
def backquoted : Octets → Octets → Read Octets
  | _, [] => none
  | acc, '\\' :: c :: rest =>
    if c = backquote || c = '\\' || c = '$' then backquoted (c :: acc) rest
    else backquoted (c :: '\\' :: acc) rest
  | acc, c :: rest => if c = backquote then some (acc.reverse, rest) else backquoted (c :: acc) rest

/-- What a backslash between double quotes takes the meaning of. -/
def quotable (place : Place) (c : Char) : Bool :=
  c = '$' || c = backquote || c = '"' || c = '\\' || (place ≠ .quotes && c = '\x7d')

/-- What follows the name of a parameter between braces, up to the word. -/
def treatmentOf : Octets → Treatment × Octets
  | ':' :: '-' :: rest => (.orElse true, rest)
  | ':' :: '=' :: rest => (.orAssign true, rest)
  | ':' :: '?' :: rest => (.orFail true, rest)
  | ':' :: '+' :: rest => (.ifSet true, rest)
  | '-' :: rest => (.orElse false, rest)
  | '=' :: rest => (.orAssign false, rest)
  | '?' :: rest => (.orFail false, rest)
  | '+' :: rest => (.ifSet false, rest)
  | '%' :: '%' :: rest => (.trimEnd true, rest)
  | '%' :: rest => (.trimEnd false, rest)
  | '#' :: '#' :: rest => (.trimFront true, rest)
  | '#' :: rest => (.trimFront false, rest)
  | rest => (.plain, rest)

/-- The name of a parameter. -/
def parameterName (cs : Octets) : Read Octets :=
  match cs with
  | [] => none
  | c :: rest =>
    if isNameStart c then some (cs.takeWhile isNameChar, cs.dropWhile isNameChar)
    else if c.isDigit then some (cs.takeWhile Char.isDigit, cs.dropWhile Char.isDigit)
    else if isSpecial c then some ([c], rest)
    else none

/-- Where the length of a parameter is asked for, its name. -/
def lengthOf (cs : Octets) : Read Octets :=
  match parameterName cs with
  | some (name, '\x7d' :: rest) => some (name, rest)
  | _ => none

def isPlainChar (place : Place) (c : Char) : Bool :=
  c ≠ '\\' && c ≠ '$' && c ≠ backquote && c ≠ '"' && (c ≠ '\'' || place = .quotes)

/-- The name in front of an assignment, and what is assigned. -/
def assignment (cs : Octets) : Read Octets :=
  match cs with
  | [] => none
  | c :: _ =>
    if isNameStart c then
      match cs.dropWhile isNameChar with
      | '=' :: rest => some (cs.takeWhile isNameChar, rest)
      | _ => none
    else none

/-- The operator of a redirection. -/
def redirectKind : Octets → Read RedirectKind
  | '>' :: '>' :: rest => some (.append, rest)
  | '>' :: '&' :: rest => some (.duplicate, rest)
  | '>' :: '|' :: rest => some (.output, rest)
  | '>' :: rest => some (.output, rest)
  | '<' :: '&' :: rest => some (.duplicate, rest)
  | '<' :: '<' :: _ => none
  | '<' :: rest => some (.input, rest)
  | _ => none

/-- The channel and the operator of a redirection. -/
def redirectHead (cs : Octets) : Read (Nat × RedirectKind) :=
  let digits := cs.takeWhile Char.isDigit
  let rest := cs.dropWhile Char.isDigit
  let usual : Nat := match rest with
    | '<' :: _ => 0
    | _ => 1
  let channel := if digits = [] then usual else (Octets.nat? digits).getD usual
  (redirectKind rest).map fun (kind, rest) => ((channel, kind), rest)

/-- What follows the parentheses behind the name of a function that is defined. -/
def definitionHead (word rest : Octets) : Option Octets :=
  if word ≠ [] && word.all isNameChar then
    match skipBlanks rest with
    | '(' :: rest =>
      match skipBlanks rest with
      | ')' :: rest => some rest
      | _ => none
    | _ => none
  else none

mutual
/-- Parts up to the end of a place. -/
def parts (fuel : Nat) (place : Place) (acc : List Part) (cs : Octets) : Read (List Part) :=
  match fuel with
  | 0 => none
  | fuel + 1 =>
    if place.endsAt cs then some (acc.reverse, cs)
    else
      match cs with
      | [] => none
      | '\\' :: '\n' :: rest => parts fuel place acc rest
      | '\\' :: c :: rest =>
        if place = .word || place = .braces false || quotable place c then
          parts fuel place (.text [c] true :: acc) rest
        else parts fuel place (.text ['\\', c] true :: acc) rest
      | '$' :: rest =>
        match dollar fuel place.quoted rest with
        | some (part, rest) => parts fuel place (part :: acc) rest
        | none => none
      | c :: rest =>
        if c = backquote then
          match backquoted [] rest with
          | some (script, rest) =>
            match statements fuel [] script with
            | some (body, []) => parts fuel place (.outputOf body place.quoted :: acc) rest
            | _ => none
          | none => none
        else if c = '"' then
          match parts fuel .quotes [] rest with
          | some ([], _ :: rest) => parts fuel place (.text [] true :: acc) rest
          | some (inner, _ :: rest) => parts fuel place (inner.reverse ++ acc) rest
          | _ => none
        else if c = '\'' && place ≠ .quotes then
          match rest.dropWhile (· ≠ '\'') with
          | _ :: after =>
            parts fuel place (.text (rest.takeWhile (· ≠ '\'')) true :: acc) after
          | [] => none
        else
          -- A run of plain characters, of which the first one is known not to end the place.
          let more := match place with
            | .word => rest.takeWhile fun c => isPlainChar place c && !isDelimiter c
            | _ => []
          parts fuel place (.text (c :: more) place.quoted :: acc) (rest.drop more.length)

/-- What a dollar sign introduces. -/
def dollar (fuel : Nat) (quoted : Bool) (cs : Octets) : Read Part :=
  match fuel with
  | 0 => none
  | fuel + 1 =>
    match cs with
    | '(' :: '(' :: rest =>
      match parts fuel .arithmetic [] rest with
      | some (inner, _ :: _ :: rest) => some (.arithmetic inner quoted, rest)
      | _ => none
    | '(' :: rest =>
      match statements fuel [] rest with
      | some (body, ')' :: rest) => some (.outputOf body quoted, rest)
      | _ => none
    | '\x7b' :: rest => braces fuel quoted rest
    | cs =>
      match cs with
      | [] => some (.text ['$'] quoted, [])
      | c :: rest =>
        if isNameStart c then
          some (.parameter (cs.takeWhile isNameChar) .plain [] quoted, cs.dropWhile isNameChar)
        else if isSpecial c then some (.parameter [c] .plain [] quoted, rest)
        else some (.text ['$'] quoted, cs)

/-- A parameter between braces, after the opening one. -/
def braces (fuel : Nat) (quoted : Bool) (cs : Octets) : Read Part :=
  match fuel with
  | 0 => none
  | fuel + 1 =>
    let measured := match cs with
      | '#' :: rest => lengthOf rest
      | _ => none
    match measured with
    | some (name, rest) => some (.parameter name .length [] quoted, rest)
    | none =>
      match parameterName cs with
      | none => none
      | some (name, rest) =>
        let (treatment, rest) := treatmentOf rest
        match parts fuel (.braces quoted) [] rest with
        | some (word, _ :: rest) =>
          if treatment = .plain && !word.isEmpty then none
          else some (.parameter name treatment word quoted, rest)
        | _ => none

/-- Redirections, one after the other. -/
def redirects (fuel : Nat) (acc : List Redirect) (cs : Octets) : Read (List Redirect) :=
  match fuel with
  | 0 => none
  | fuel + 1 =>
    match redirectHead (skipBlanks cs) with
    | none => some (acc.reverse, cs)
    | some ((channel, kind), rest) =>
      match parts fuel .word [] (skipBlanks rest) with
      | some ([], _) => none
      | some (target, rest) => redirects fuel (.mk channel kind target :: acc) rest
      | none => none

/-- The rest of a simple command. -/
def simple (fuel : Nat) (assignments : List (Octets × Word)) (words : List Word)
    (reds : List Redirect) (cs : Octets) : Read Command :=
  match fuel with
  | 0 => none
  | fuel + 1 =>
    let cs := skipBlanks cs
    match redirectHead cs with
    | some ((channel, kind), rest) =>
      match parts fuel .word [] (skipBlanks rest) with
      | some ([], _) => none
      | some (target, rest) =>
        simple fuel assignments words (.mk channel kind target :: reds) rest
      | none => none
    | none =>
      if Place.word.endsAt cs then
        some (.simple assignments.reverse words.reverse reds.reverse, cs)
      else
        match words, assignment cs with
        | [], some (name, rest) =>
          match parts fuel .word [] rest with
          | some (value, rest) => simple fuel ((name, value) :: assignments) [] reds rest
          | none => none
        | words, _ =>
          match parts fuel .word [] cs with
          | some (word, rest) => simple fuel assignments (word :: words) reds rest
          | none => none

/-- The words of a loop, up to the end of the line. -/
def wordList (fuel : Nat) (acc : List Word) (cs : Octets) : Read (List Word) :=
  match fuel with
  | 0 => none
  | fuel + 1 =>
    let cs := skipBlanks cs
    if Place.word.endsAt cs then some (acc.reverse, cs)
    else
      match parts fuel .word [] cs with
      | some (word, rest) => wordList fuel (word :: acc) rest
      | none => none

/-- The patterns of an arm, up to the closing parenthesis. -/
def patterns (fuel : Nat) (acc : List Word) (cs : Octets) : Read (List Word) :=
  match fuel with
  | 0 => none
  | fuel + 1 =>
    match parts fuel .word [] (skipBlanks cs) with
    | none => none
    | some (word, rest) =>
      match skipBlanks rest with
      | '|' :: rest => patterns fuel (word :: acc) rest
      | ')' :: rest => some ((word :: acc).reverse, rest)
      | _ => none

/-- The arms of a selection. -/
def arms (fuel : Nat) (acc : List (List Word × List Statement)) (cs : Octets) :
    Read (List (List Word × List Statement)) :=
  match fuel with
  | 0 => none
  | fuel + 1 =>
    let cs := skipLines cs.length cs
    match reserved "esac" cs with
    | some rest => some (acc.reverse, rest)
    | none =>
      let cs := match cs with
        | '(' :: rest => rest
        | cs => cs
      match patterns fuel [] cs with
      | none => none
      | some (ps, rest) =>
        match statements fuel [] rest with
        | none => none
        | some (body, rest) =>
          match rest with
          | ';' :: ';' :: rest => arms fuel ((ps, body) :: acc) rest
          | rest =>
            (reserved "esac" rest).map fun rest => (((ps, body) :: acc).reverse, rest)

/-- The branches of a choice, after the word that introduces one. -/
def branches (fuel : Nat) (acc : List (List Statement × List Statement)) (cs : Octets) :
    Read (List (List Statement × List Statement) × List Statement) :=
  match fuel with
  | 0 => none
  | fuel + 1 =>
    match statements fuel [] cs with
    | none => none
    | some (test, rest) =>
      match reserved "then" rest with
      | none => none
      | some rest =>
        match statements fuel [] rest with
        | none => none
        | some (body, rest) =>
          let acc := (test, body) :: acc
          match reserved "elif" rest, reserved "else" rest, reserved "fi" rest with
          | some rest, _, _ => branches fuel acc rest
          | _, some rest, _ =>
            match statements fuel [] rest with
            | some (otherwise, rest) =>
              (reserved "fi" rest).map fun rest => ((acc.reverse, otherwise), rest)
            | none => none
          | _, _, some rest => some ((acc.reverse, []), rest)
          | _, _, _ => none

/-- The body of a loop. -/
def doBody (fuel : Nat) (cs : Octets) : Read (List Statement) :=
  match fuel with
  | 0 => none
  | fuel + 1 =>
    match reserved "do" (skipLines cs.length cs) with
    | none => none
    | some rest =>
      match statements fuel [] rest with
      | some (body, rest) => (reserved "done" rest).map fun rest => (body, rest)
      | none => none

/-- A loop over words, after the word that introduces it. -/
def eachLoop (fuel : Nat) (cs : Octets) : Read (Octets × Option (List Word) × List Statement) :=
  match fuel with
  | 0 => none
  | fuel + 1 =>
    let cs := skipBlanks cs
    let name := cs.takeWhile isNameChar
    let rest := skipLines cs.length (cs.drop name.length)
    if name = [] then none
    else
      match reserved "in" rest with
      | some rest =>
        match wordList fuel [] rest with
        | none => none
        | some (words, rest) =>
          let rest := match rest with
            | ';' :: rest => rest
            | rest => rest
          (doBody fuel rest).map fun (body, rest) => ((name, some words, body), rest)
      | none =>
        let rest := match rest with
          | ';' :: rest => rest
          | rest => rest
        (doBody fuel rest).map fun (body, rest) => ((name, none, body), rest)

/-- A loop with a test. -/
def testLoop (fuel : Nat) (goal : Bool) (cs : Octets) : Read Command :=
  match fuel with
  | 0 => none
  | fuel + 1 =>
    match statements fuel [] cs with
    | none => none
    | some (test, rest) =>
      match doBody fuel rest with
      | none => none
      | some (body, rest) =>
        (redirects fuel [] rest).map fun (reds, rest) => (.loop goal test body reds, rest)

/-- One command. -/
def command (fuel : Nat) (cs : Octets) : Read Command :=
  match fuel with
  | 0 => none
  | fuel + 1 =>
    let cs := skipBlanks cs
    let word := plainWord cs
    let rest := cs.drop word.length
    match cs with
    | '(' :: inner =>
      match statements fuel [] inner with
      | some (body, ')' :: rest) =>
        (redirects fuel [] rest).map fun (reds, rest) => (.subshell body reds, rest)
      | _ => none
    | _ =>
      if word = ['\x7b'] then
        match statements fuel [] rest with
        | some (body, '\x7d' :: rest) =>
          (redirects fuel [] rest).map fun (reds, rest) => (.group body reds, rest)
        | _ => none
      else if word = "if".toList then
        match branches fuel [] rest with
        | some ((bs, otherwise), rest) =>
          (redirects fuel [] rest).map fun (reds, rest) => (.choose bs otherwise reds, rest)
        | none => none
      else if word = "while".toList then testLoop fuel true rest
      else if word = "until".toList then testLoop fuel false rest
      else if word = "for".toList then
        match eachLoop fuel rest with
        | some ((name, words, body), rest) =>
          (redirects fuel [] rest).map fun (reds, rest) => (.each name words body reds, rest)
        | none => none
      else if word = "case".toList then
        match parts fuel .word [] (skipBlanks rest) with
        | none => none
        | some (subject, rest) =>
          match reserved "in" (skipLines rest.length rest) with
          | none => none
          | some rest =>
            match arms fuel [] rest with
            | none => none
            | some (as, rest) =>
              (redirects fuel [] rest).map fun (reds, rest) => (.select subject as reds, rest)
      else if closers.any fun w => word == w.toList then none
      else
        match definitionHead word rest with
        | some rest =>
          (command fuel (skipLines rest.length rest)).map fun (body, rest) =>
            (.define word body, rest)
        | none =>
          match simple fuel [] [] [] cs with
          | some (.simple [] [] [], _) => none
          | read => read

/-- The commands of a pipeline. -/
def commands (fuel : Nat) (acc : List Command) (cs : Octets) : Read (List Command) :=
  match fuel with
  | 0 => none
  | fuel + 1 =>
    match command fuel cs with
    | none => none
    | some (c, rest) =>
      match skipBlanks rest with
      | '|' :: '|' :: _ => some ((c :: acc).reverse, skipBlanks rest)
      | '|' :: rest => commands fuel (c :: acc) (skipLines rest.length rest)
      | rest => some ((c :: acc).reverse, rest)

def pipeline (fuel : Nat) (cs : Octets) : Read Pipeline :=
  match fuel with
  | 0 => none
  | fuel + 1 =>
    match reserved "!" cs with
    | some rest => (commands fuel [] rest).map fun (cs, rest) => (.mk true cs, rest)
    | none => (commands fuel [] cs).map fun (cs, rest) => (.mk false cs, rest)

/-- The pipelines that depend on what came before. -/
def chain (fuel : Nat) (acc : List (Bool × Pipeline)) (cs : Octets) :
    Read (List (Bool × Pipeline)) :=
  match fuel with
  | 0 => none
  | fuel + 1 =>
    match cs with
    | '&' :: '&' :: rest =>
      match pipeline fuel (skipLines rest.length rest) with
      | some (p, rest) => chain fuel ((true, p) :: acc) rest
      | none => none
    | '|' :: '|' :: rest =>
      match pipeline fuel (skipLines rest.length rest) with
      | some (p, rest) => chain fuel ((false, p) :: acc) rest
      | none => none
    | cs => some (acc.reverse, cs)

/-- Statements up to what ends their list. -/
def statements (fuel : Nat) (acc : List Statement) (cs : Octets) : Read (List Statement) :=
  match fuel with
  | 0 => none
  | fuel + 1 =>
    let cs := skipLines cs.length cs
    if atEnd cs then some (acc.reverse, cs)
    else
      match pipeline fuel cs with
      | none => none
      | some (first, rest) =>
        match chain fuel [] rest with
        | none => none
        | some (more, rest) =>
          match rest with
          | '&' :: rest => statements fuel (.mk first more true :: acc) rest
          | ';' :: ';' :: _ => some ((.mk first more false :: acc).reverse, rest)
          | ';' :: rest => statements fuel (.mk first more false :: acc) rest
          | '\n' :: rest => statements fuel (.mk first more false :: acc) rest
          | rest =>
            if atEnd rest then some ((.mk first more false :: acc).reverse, rest) else none
end

/-- A whole script. -/
def script (cs : Octets) : Option (List Statement) :=
  match statements (4 * cs.length + 100) [] cs with
  | some (body, []) => some body
  | _ => none

end LspClient.Shell
