import LspClient.FileTree.Operations
import LspClient.Shell.Script

/-!
# Conditions

What `test` asks of its arguments: texts, numbers, files, and their combinations. `none` stands
for arguments that make no condition.
-/

namespace LspClient.Shell.Condition

/-- A question about one operand. -/
def unary (t : FileTree) (op : Char) (arg : Octets) : Option Bool :=
  let path : Path := ⟨Octets.toText arg⟩
  let node := t.node? path
  match op with
  | 'n' => some (!arg.isEmpty)
  | 'z' => some arg.isEmpty
  | 'e' => some node.isSome
  | 'f' => some (node.any Node.isFile)
  | 'd' => some (node.any Node.isDir)
  | 'r' => some (node.any Node.readable)
  | 'w' => some (node.any Node.writable)
  | 'x' => some (node.any Node.searchable)
  | 's' => some (node.any fun
      | .file content _ => !content.isEmpty
      | _ => true)
  | 'L' | 'h' => some (match t.resolve path false with
      | .ok (_, some (.link _)) => true
      | _ => false)
  | 't' => some false
  | _ => none

/-- A question about two operands. -/
def binary (op : String) (a b : Octets) : Option Bool :=
  let numbers (f : Int → Int → Bool) : Option Bool :=
    match Octets.int? a, Octets.int? b with
    | some x, some y => some (f x y)
    | _, _ => none
  match op with
  | "=" => some (a == b)
  | "==" => some (a == b)
  | "!=" => some (a != b)
  | "<" => some (a != b && Octets.before a b)
  | ">" => some (a != b && Octets.before b a)
  | "-eq" => numbers (· == ·)
  | "-ne" => numbers (· != ·)
  | "-lt" => numbers fun x y => x < y
  | "-le" => numbers fun x y => x ≤ y
  | "-gt" => numbers fun x y => y < x
  | "-ge" => numbers fun x y => y ≤ x
  | _ => none

def isBinary (op : Octets) : Bool :=
  ["=", "==", "!=", "<", ">", "-eq", "-ne", "-lt", "-le", "-gt", "-ge"].contains (String.ofList op)

mutual
/-- Conditions joined by `-o`. -/
def anyOf (t : FileTree) : Nat → List Octets → Option (Bool × List Octets)
  | 0, _ => none
  | n + 1, args =>
    match allOf t n args with
    | some (a, ['-', 'o'] :: rest) => (anyOf t n rest).map fun (b, rest) => (a || b, rest)
    | r => r

/-- Conditions joined by `-a`. -/
def allOf (t : FileTree) : Nat → List Octets → Option (Bool × List Octets)
  | 0, _ => none
  | n + 1, args =>
    match single t n args with
    | some (a, ['-', 'a'] :: rest) => (allOf t n rest).map fun (b, rest) => (a && b, rest)
    | r => r

/-- One condition. -/
def single (t : FileTree) : Nat → List Octets → Option (Bool × List Octets)
  | 0, _ => none
  | n + 1, args =>
    match args with
    | a :: op :: b :: rest =>
      if isBinary op then (binary (String.ofList op) a b).map fun v => (v, rest)
      else prefixed t n args
    | args => prefixed t n args

/-- A condition that begins with an operator, or a text that must not be empty. -/
def prefixed (t : FileTree) : Nat → List Octets → Option (Bool × List Octets)
  | 0, _ => none
  | n + 1, args =>
    match args with
    | [] => none
    | ['!'] :: b :: rest => (single t n (b :: rest)).map fun (v, rest) => (!v, rest)
    | ['('] :: b :: rest =>
      match anyOf t n (b :: rest) with
      | some (v, [')'] :: rest) => some (v, rest)
      | _ => none
    | ['-', op] :: b :: rest =>
      match unary t op b with
      | some v => some (v, rest)
      | none => some (true, b :: rest)
    | a :: rest => some (!a.isEmpty, rest)
end

def holds (t : FileTree) (args : List Octets) : Option Bool :=
  if args.isEmpty then some false
  else
    match anyOf t (4 * args.length + 8) args with
    | some (v, []) => some v
    | _ => none

end LspClient.Shell.Condition
