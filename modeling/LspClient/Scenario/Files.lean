import LspClient.FileTree.Operations
import LspClient.Json.Basic
import LspClient.Json.Parser
import LspClient.Text.Utf8

/-!
# Files of a scenario

A scenario runs in an empty directory. It writes `$ROOT` where it means the path of that directory,
and so do its answers, in which moreover the length of an expired wait is left open.

It lists its files by their paths below that directory, and writes bytes as a text, as hexadecimal
digits, as a text repeated a number of times, or as a list of these; in an answer bytes are a text
where they are UTF-8. `populate` makes the files, and `changes` tells what is different from them
afterwards.
-/

namespace LspClient.Scenario

/-! ### Bytes -/

def hexBytes : List Char → List UInt8
  | a :: b :: rest =>
    UInt8.ofNat ((Json.hexValue a).getD 0 * 16 + (Json.hexValue b).getD 0) :: hexBytes rest
  | _ => []

def repeated (unit : List UInt8) (count : Nat) : List UInt8 :=
  count.fold (fun _ _ acc => unit ++ acc) []

mutual
def contentOf : Json → List UInt8
  | .str s => Utf8.encode s
  | .arr parts => contentOfAll parts
  | v =>
    match (v.member "hex").str?, (v.member "repeat").str? with
    | some hex, _ => hexBytes hex.toList
    | _, some unit => repeated (Utf8.encode unit) ((v.member "count").nat?.getD 0)
    | _, _ => []

def contentOfAll : List Json → List UInt8
  | [] => []
  | v :: rest => contentOf v ++ contentOfAll rest
end

def hexOf (bytes : List UInt8) : String :=
  String.ofList (bytes.flatMap fun b =>
    [Json.hexDigit (b.toNat / 16), Json.hexDigit (b.toNat % 16)])

def ofContent (bytes : List UInt8) : Json :=
  match Utf8.decode? bytes with
  | some s => .str s
  | none => .object [("hex", .str (hexOf bytes))]

/-! ### The scratch directory -/

def rootLocation : Location := ["tmp", "scratch", "w"]

def rootText : String := "/tmp/scratch/w"

def root : Path := ⟨rootText⟩

/-- A tree with the scratch directory in it. -/
def emptyTree : FileTree where
  entries := [
    ([], .dir 0o555), (["tmp"], .dir 0o777), (["tmp", "scratch"], .dir 0o755),
    (rootLocation, .dir 0o755)]
  cwd := rootLocation
  umask := 0o022

def rootMark : String := "$ROOT"

def fillIn (v : Json) : Json := v.mapText fun s => s.replace rootMark rootText

def expiryMark : String := " timed out after "

/-- A text with an `N` for the digits behind each `expiryMark`. -/
def maskExpiry (s : String) : String :=
  match s.splitOn expiryMark with
  | [] => s
  | first :: rest =>
    expiryMark.intercalate (first :: rest.map fun part =>
      match part.toList.span Char.isDigit with
      | ([], cs) => String.ofList cs
      | (_, cs) => String.ofList ('N' :: cs))

def maskOut (v : Json) : Json := v.mapText fun s => maskExpiry (s.replace rootText rootMark)

/-! ### Beforehand -/

def octal (s : String) : Nat :=
  s.toList.foldl (fun n c => n * 8 + (c.toNat - '0'.toNat)) 0

/-- What a scenario asks for at one path. -/
def nodeOf (v : Json) : Node :=
  let mode (otherwise : Nat) := ((v.member "mode").str?.map octal).getD otherwise
  match v.member "link", v.member "dir" with
  | .str target, _ => .link target
  | _, .bool true => .dir (mode 0o755)
  | _, _ =>
    match v.get? "content" with
    | some content => .file (contentOf content) (mode 0o644)
    | none => .file (contentOf v) 0o644

/-- The files of a scenario by their paths, in the order of these. -/
def listed (files : Json) : List (String × Node) :=
  (files.entries?.getD []).map fun (key, v) => (key, nodeOf v)

def locate (base : Location) (key : String) : Location := base ++ FileTree.namesOf key

/-- Put one listed file into its place. -/
def place (base : Path) (t : FileTree) (key : String) (node : Node) : FileTree :=
  let names := FileTree.namesOf key
  let path := base.join ⟨key⟩
  let t := (t.makeDirAll (base.join ⟨"/".intercalate names.dropLast⟩)).tree
  match node with
  | .file content mode =>
    match t.writeFile path content with
    | .ok t => (t.setMode path mode).toOption.getD t
    | .error _ => t
  | .dir mode =>
    let t := (t.makeDirAll path).tree
    (t.setMode path mode).toOption.getD t
  | .link target => (t.makeLink path target).toOption.getD t

def populate (t : FileTree) (base : Path) (files : Json) : FileTree :=
  (listed files).foldl (fun t (key, node) => place base t key node) t

/-- The tree at the beginning of a scenario. -/
def startTree (files : Json) : FileTree := populate emptyTree root files

/-! ### Afterwards -/

/-- What a file shows of itself. -/
def visible (n : Node) : List UInt8 :=
  match n with
  | .file content _ => if n.readable then content else []
  | _ => []

def keyOf (names : List String) : String := "/".intercalate names

def isListedDir (files : Json) (names : List String) : Bool :=
  (listed files).any fun (key, node) => node.isDir && FileTree.namesOf key == names

/-- What is below the scratch directory and not as `files` lists it. -/
def changes (files : Json) (t : FileTree) : Json :=
  let start := startTree files
  let found := (t.below rootLocation).filterMap fun (names, node) =>
    let old := start.get? (rootLocation ++ names)
    match node with
    | .file .. =>
      if old.any fun o => o.isFile && visible o == visible node then none
      else some (keyOf names, ofContent (visible node))
    | .link target =>
      if old == some node then none else some (keyOf names, .object [("link", .str target)])
    | .dir _ =>
      if t.isEmptyDir (rootLocation ++ names) && !isListedDir files names then
        some (keyOf names ++ "/", .object [("dir", .bool true)])
      else none
  let gone := (listed files).filterMap fun (key, _) =>
    if (t.get? (locate rootLocation key)).isSome then none else some (key, .null)
  .object (found ++ gone)

def octalText (mode : Nat) : String := String.ofList (Nat.toDigits 8 mode)

/-- Everything below the scratch directory, with modes. -/
def inventory (t : FileTree) : Json :=
  .object ((t.below rootLocation).filterMap fun (names, node) =>
    match node with
    | .file _ mode =>
      some (keyOf names, .object [
        ("content", ofContent (visible node)), ("mode", .str (octalText mode))])
    | .link target => some (keyOf names, .object [("link", .str target)])
    | .dir _ =>
      if t.isEmptyDir (rootLocation ++ names) then
        some (keyOf names ++ "/", .object [("dir", .bool true)])
      else none)

end LspClient.Scenario
