import LspClient.Diagnostic.Basic
import LspClient.Json.Decode

/-!
# Edits

A `TextEdit` replaces a range of a text. A `WorkspaceEdit` names edits for many files: document
changes in order, or else a table by URI. `fileEdits` flattens it; an operation on whole files is
refused, since the client offers none.

`offsetAt` turns a position into a byte offset of a text: a line past the last one stands for the
end of the text, a column past the end of its line for the end of the line, and a column inside a
character of two UTF-16 units for the end of that character.

`applyEdits` resolves all ranges against the text as it was, sorts them by their start with the
order of the list between equal ones, and copies the text once from front to back. It is refused
when an edit starts before the end of the one before it.
-/

namespace LspClient

/-! ### What is to be changed -/

structure TextEdit where
  range : Range
  newText : String
  deriving DecidableEq, Repr, Inhabited

section

open Json

namespace Position

def decode : Decoder Position :=
  record "LspPosition" [.of "line" Decoder.word32 false, .of "character" Decoder.word32 false]
    fun ms => do
      let line ← ms.required "line" Decoder.word32
      let character ← ms.required "character" Decoder.word32
      return ⟨UInt32.ofNat line, UInt32.ofNat character⟩

end Position

namespace Range

/-- A range without an end is empty. -/
def decode : Decoder Range :=
  record "LspRange"
    [.of "start" Position.decode false, .of "end" (Decoder.nullable Position.decode) true]
    fun ms => do
      let start ← ms.required "start" Position.decode
      let stop ← ms.optional "end" Position.decode
      return ⟨start, stop.getD start⟩

end Range

namespace TextEdit

def decode : Decoder TextEdit :=
  record "TextEdit" [.of "range" Range.decode false, .of "newText" Decoder.text false]
    fun ms => do
      let range ← ms.required "range" Range.decode
      let newText ← ms.required "newText" Decoder.text
      return ⟨range, newText⟩

def decodeList : Decoder (List TextEdit) := Decoder.list decode

end TextEdit

structure WorkspaceEdit where
  changes : Option (List (String × List TextEdit))
  documentChanges : Option (List Json)
  deriving Repr, Inhabited

inductive WorkspaceEditError where
  | resourceOperation
  | invalidChange (e : DecodeError)

def WorkspaceEditError.message : WorkspaceEditError → String
  | .resourceOperation => "resource operations are not supported"
  | .invalidChange e => "invalid document change: " ++ e.message

/-- The edits of one file, by its URI. -/
abbrev FileEdits := String × List TextEdit

namespace WorkspaceEdit

def decode : Decoder WorkspaceEdit :=
  record "WorkspaceEdit"
    [.of "changes" (Decoder.nullable (Decoder.table TextEdit.decodeList)) true,
     .of "documentChanges" (Decoder.nullable (Decoder.list Decoder.any)) true]
    fun ms => do
      let changes ← ms.optional "changes" (Decoder.table TextEdit.decodeList)
      let documentChanges ← ms.optional "documentChanges" (Decoder.list Decoder.any)
      return ⟨changes, documentChanges⟩

def decodeDocument : Decoder String :=
  record "TextDocumentIdentifier" [.of "uri" Decoder.text false] fun ms =>
    ms.required "uri" Decoder.text

def decodeDocumentEdit : Decoder FileEdits :=
  record "TextDocumentEdit"
    [.of "textDocument" decodeDocument false, .of "edits" TextEdit.decodeList false]
    fun ms => do
      let uri ← ms.required "textDocument" decodeDocument
      let edits ← ms.required "edits" TextEdit.decodeList
      return (uri, edits)

def documentEdit (change : Json) : Except WorkspaceEditError FileEdits :=
  if (change.get? "kind").isSome then .error .resourceOperation
  else match decodeDocumentEdit change with
    | .ok edits => .ok edits
    | .error e => .error (.invalidChange e)

/-- The edits of each file in the order in which they are to be made. -/
def fileEdits (edit : WorkspaceEdit) : Except WorkspaceEditError (List FileEdits) :=
  match edit.documentChanges, edit.changes with
  | some changes, _ => changes.mapM documentEdit
  | none, some changes => .ok changes
  | none, none => .ok []

end WorkspaceEdit

end

/-! ### Lines -/

def utf8Width (c : Char) : Nat := c.utf8Size

def utf16Width (c : Char) : UInt32 := if c.toNat < 0x10000 then 1 else 2

def byteLength : List Char → Nat
  | [] => 0
  | c :: cs => utf8Width c + byteLength cs

/-- The lines of a text without their line feeds, each with the offset at which it starts. -/
def linesFrom (start offset : Nat) (acc : List Char) : List Char → List (Nat × List Char)
  | [] => [(start, acc.reverse)]
  | c :: rest =>
    if c = '\n' then (start, acc.reverse) :: linesFrom (offset + 1) (offset + 1) [] rest
    else linesFrom start (offset + utf8Width c) (c :: acc) rest

def linesOf (text : List Char) : List (Nat × List Char) := linesFrom 0 0 [] text

/-- A line without the carriage return it may end in. -/
def dropReturn (line : List Char) : List Char :=
  match line.getLast? with
  | some '\r' => line.dropLast
  | _ => line

/-- The first character boundary at or behind column `column`, where `offset` and `units` say how
far along the line the characters to come begin. Units are counted in a 32-bit word, as columns
are. -/
def columnOffset (column : UInt32) : Nat → UInt32 → List Char → Nat
  | offset, _, [] => offset
  | offset, units, c :: rest =>
    if units ≥ column then offset
    else columnOffset column (offset + utf8Width c) (units + utf16Width c) rest

def offsetIn (lines : List (Nat × List Char)) (length : Nat) (p : Position) : Nat :=
  match lines[p.line.toNat]? with
  | none => length
  | some (start, line) => columnOffset p.character start 0 (dropReturn line)

def offsetAt (text : List Char) (p : Position) : Nat :=
  offsetIn (linesOf text) (byteLength text) p

/-! ### Splices -/

/-- An edit resolved to byte offsets, with its place in the list of edits. -/
structure Splice where
  start : Nat
  stop : Nat
  index : Nat
  newText : List Char
  deriving DecidableEq, Repr

def resolve (text : List Char) (edits : List TextEdit) : List Splice :=
  let lines := linesOf text
  let length := byteLength text
  edits.zipIdx.map fun (edit, index) =>
    let start := offsetIn lines length edit.range.start
    let stop := max start (offsetIn lines length edit.range.stop)
    { start, stop, index, newText := edit.newText.toList }

def Splice.before (a b : Splice) : Bool :=
  a.start < b.start || (a.start == b.start && a.index ≤ b.index)

def sortSplices (splices : List Splice) : List Splice := splices.mergeSort Splice.before

/-- An edit that starts before the end of the one before it. -/
structure Overlap where
  index : Nat
  start : Nat
  cursor : Nat
  deriving DecidableEq, Repr

def Overlap.message (o : Overlap) : String :=
  s!"text edit {o.index} overlaps an earlier edit (offset {o.start} < {o.cursor})"

/-- How many characters begin within the first `n` bytes, `count` of them already passed. -/
def charsWithin (count : Nat) : Nat → List Char → Nat
  | _, [] => count
  | n, c :: rest => if n = 0 then count else charsWithin (count + 1) (n - utf8Width c) rest

/-- Cut a text at a byte offset. -/
def splitBytes (n : Nat) (cs : List Char) : List Char × List Char :=
  cs.splitAt (charsWithin 0 n cs)

/-- Copy `rest`, which is the text from offset `cursor` on, with the splices made on the way. -/
def copyFrom (cursor : Nat) (rest : List Char) : List Splice → Except Overlap (List Char)
  | [] => .ok rest
  | s :: splices =>
    if s.start < cursor then .error ⟨s.index, s.start, cursor⟩
    else
      let (kept, behind) := splitBytes (s.start - cursor) rest
      let (_, behind) := splitBytes (s.stop - s.start) behind
      (copyFrom s.stop behind splices).map fun out => kept ++ s.newText ++ out

def applyChars (text : List Char) (edits : List TextEdit) : Except Overlap (List Char) :=
  copyFrom 0 text (sortSplices (resolve text edits))

def applyEdits (text : String) (edits : List TextEdit) : Except Overlap String :=
  (applyChars text.toList edits).map String.ofList

end LspClient
