import LspClient.Shell.Filter

/-!
# The stream editor

A script of commands that is run on each line of a text: substitution, transliteration, printing,
deletion and the end of the work, each for the lines that an address tells.
-/

namespace LspClient.Shell.Sed

inductive Address where
  | line (n : Nat)
  | last
  | regex (r : Regexes)

inductive Action where
  /-- Replace the matches, or one of them by its number. -/
  | substitute (r : Regexes) (by_ : Octets) (all ignoreCase print : Bool) (number : Nat)
  | transliterate (source target : Octets)
  | delete
  | print
  | number
  | quit

structure Rule where
  start : Option Address
  stop : Option Address
  negated : Bool
  action : Action

/-! ### Reading -/

/-- What stands up to a delimiter that is not escaped. -/
def upTo (d : Char) : Octets → Octets → Option (Octets × Octets)
  | _, [] => none
  | acc, '\\' :: c :: rest =>
    if c = d then upTo d (c :: acc) rest else upTo d (c :: '\\' :: acc) rest
  | acc, c :: rest => if c = d then some (acc.reverse, rest) else upTo d (c :: acc) rest

def address (extended : Bool) : Octets → Option (Address × Octets)
  | '$' :: rest => some (.last, rest)
  | '/' :: rest => do
    let (text, rest) ← upTo '/' [] rest
    return (.regex (← Regex.ofText extended text), rest)
  | cs =>
    let ds := cs.takeWhile Char.isDigit
    (Octets.nat? ds).map fun n => (.line n, cs.drop ds.length)

def action (extended : Bool) : Octets → Option (Action × Octets)
  | 's' :: d :: rest => do
    let (pattern, rest) ← upTo d [] rest
    let (by_, rest) ← upTo d [] rest
    let flags := rest.takeWhile Char.isAlphanum
    let digits := flags.filter Char.isDigit
    let r ← Regex.ofText extended pattern
    return (.substitute r by_ (flags.contains 'g') (flags.contains 'i' || flags.contains 'I')
      (flags.contains 'p') ((Octets.nat? digits).getD 1), rest.drop flags.length)
  | 'y' :: d :: rest => do
    let (source, rest) ← upTo d [] rest
    let (target, rest) ← upTo d [] rest
    return (.transliterate source target, rest)
  | 'd' :: rest => some (.delete, rest)
  | 'p' :: rest => some (.print, rest)
  | '=' :: rest => some (.number, rest)
  | 'q' :: rest => some (.quit, rest)
  | _ => none

def skip (cs : Octets) : Octets := cs.dropWhile fun c => c = ' ' || c = ';' || c = '\n' || c = '\t'

def rules (extended : Bool) : Nat → List Rule → Octets → Option (List Rule)
  | 0, _, _ => none
  | n + 1, acc, cs =>
    let cs := skip cs
    if cs.isEmpty then some acc.reverse
    else
      let (start, cs) := match address extended cs with
        | some (a, cs) => (some a, cs)
        | none => (none, cs)
      let (stop, cs) := match start, cs with
        | some _, ',' :: rest =>
          match address extended rest with
          | some (a, rest) => (some a, rest)
          | none => (none, cs)
        | _, _ => (none, cs)
      let (negated, cs) := match skip cs with
        | '!' :: rest => (true, skip rest)
        | cs => (false, cs)
      match action extended cs with
      | some (act, rest) => rules extended n (⟨start, stop, negated, act⟩ :: acc) rest
      | none => none

/-! ### Running -/

/-- The replacement for a match. -/
def replacement (matched : Octets) (captures : Regex.Captures) : Octets → Octets
  | [] => []
  | '&' :: rest => matched ++ replacement matched captures rest
  | '\\' :: c :: rest =>
    (if c.isDigit then
      if c = '0' then matched else (captures.lookup (c.toNat - 48)).getD []
    else if c = 'n' then ['\n'] else if c = 't' then ['\t'] else [c]) ++
      replacement matched captures rest
  | c :: rest => c :: replacement matched captures rest

/-- Replace matches from a position on; the result is in reverse. -/
def replaceFrom (r : Regexes) (by_ : Octets) (all fold : Bool) (number : Nat) :
    Nat → Nat → Octets → Regex.At → Octets × Bool
  | 0, _, acc, a => (a.after.reverse ++ acc, false)
  | fuel + 1, k, acc, a =>
    match Regex.search fold r (a.after.length + 1) a with
    | none => (a.after.reverse ++ acc, false)
    | some (b, e) =>
      let acc := (Regex.between a b).reverse ++ acc
      let matched := Regex.between b e
      let isIt := k = number || (all && number ≤ k)
      let acc := if isIt then (replacement matched e.captures by_).reverse ++ acc
        else matched.reverse ++ acc
      if isIt && !all then (e.after.reverse ++ acc, true)
      else
        let next : Regex.At := { e with captures := [] }
        match matched, next.after with
        | [], c :: _ =>
          let (out, more) :=
            replaceFrom r by_ all fold number fuel (k + 1) (c :: acc) (next.ahead 1)
          (out, isIt || more)
        | [], [] => (acc, isIt)
        | _, _ =>
          let (out, more) := replaceFrom r by_ all fold number fuel (k + 1) acc next
          (out, isIt || more)

/-- The state while a line is worked on. -/
structure Line where
  text : Octets
  output : Octets
  deleted : Bool
  quit : Bool

def Address.holds (a : Address) (n : Nat) (isLast : Bool) (text : Octets) : Bool :=
  match a with
  | .line m => n = m
  | .last => isLast
  | .regex r => (Regex.find false r text).isSome

/-- Whether a rule is for a line, and whether its range goes on behind it. -/
def Rule.applies (r : Rule) (inRange : Bool) (n : Nat) (isLast : Bool) (text : Octets) :
    Bool × Bool :=
  match r.start, r.stop with
  | none, _ => (true, false)
  | some a, none => (a.holds n isLast text, false)
  | some a, some b =>
    if inRange then (true, !b.holds n isLast text)
    else if a.holds n isLast text then
      (true, match b with
        | .line m => n < m
        | _ => true)
    else (false, false)

def perform (n : Nat) (l : Line) : Action → Line
  | .substitute r by_ all fold print number =>
    let (out, changed) :=
      replaceFrom r by_ all fold number (l.text.length + 2) 1 [] ⟨[], l.text, []⟩
    let text := out.reverse
    { l with text, output := if changed && print then l.output ++ text ++ ['\n'] else l.output }
  | .transliterate source target =>
    { l with text := l.text.map fun c => (target[source.idxOf c]?).getD c }
  | .delete => { l with deleted := true }
  | .print => { l with output := l.output ++ l.text ++ ['\n'] }
  | .number => { l with output := l.output ++ Octets.ofNat n ++ ['\n'] }
  | .quit => { l with quit := true }

/-- Run the rules on a line; the flags tell which ranges are open. -/
def onLine (n : Nat) (isLast : Bool) : List (Rule × Bool) → Line → List (Rule × Bool) × Line
  | [], l => ([], l)
  | (r, inRange) :: rest, l =>
    if l.deleted || l.quit then ((r, inRange) :: rest, l)
    else
      let (applies, open_) := r.applies inRange n isLast l.text
      let l := if applies != r.negated then perform n l r.action else l
      let (rest, l) := onLine n isLast rest l
      ((r, open_) :: rest, l)

/-- Run the rules on lines, from line `n` on. -/
def onLines (quiet : Bool) : Nat → List (Rule × Bool) → List Octets → Octets
  | _, _, [] => []
  | n, rs, text :: rest =>
    let (rs, l) := onLine n rest.isEmpty rs ⟨text, [], false, false⟩
    let out := l.output ++ if quiet || l.deleted then [] else l.text ++ ['\n']
    if l.quit then out else out ++ onLines quiet (n + 1) rs rest

structure Options where
  quiet : Bool
  extended : Bool
  scripts : List Octets
  operands : List Octets

def options (o : Options) : List Octets → Options
  | ['-', 'n'] :: rest => options { o with quiet := true } rest
  | ['-', 'E'] :: rest => options { o with extended := true } rest
  | ['-', 'r'] :: rest => options { o with extended := true } rest
  | ['-', 'e'] :: s :: rest => options { o with scripts := o.scripts ++ [s] } rest
  | rest => { o with operands := rest }

/-- The filter of a command line, if its script is well formed. -/
def filter (args : List Octets) : Option Filter :=
  let o := options ⟨false, false, [], []⟩ args
  let (script, operands) := match o.scripts, o.operands with
    | [], s :: rest => (s, rest)
    | ss, rest => (List.intercalate ['\n'] ss, rest)
  (rules o.extended (script.length + 2) [] script).map fun rs =>
    ⟨operands, fun inputs =>
      let cs := Filter.allText inputs
      let out := onLines o.quiet 1 (rs.map fun r => (r, false)) (Octets.lines cs)
      (if cs.getLast?.any (· ≠ '\n') && out.getLast? = some '\n' then out.dropLast else out, 0)⟩

end LspClient.Shell.Sed
