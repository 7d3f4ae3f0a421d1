import LspClient.Path
import LspClient.Settings.Basic

/-!
# Languages

The protocol's name for the language of a file, by its extension.
-/

namespace LspClient.Document

def languages : List (String × List String) := [
  ("rust", ["rs"]),
  ("typescript", ["ts", "mts", "cts"]),
  ("typescriptreact", ["tsx"]),
  ("javascript", ["js", "mjs", "cjs"]),
  ("javascriptreact", ["jsx"]),
  ("python", ["py", "pyi"]),
  ("go", ["go"]),
  ("c", ["c", "h"]),
  ("cpp", ["cc", "cpp", "cxx", "hpp", "hh"]),
  ("java", ["java"]),
  ("kotlin", ["kt", "kts"]),
  ("ruby", ["rb"]),
  ("php", ["php"]),
  ("csharp", ["cs"]),
  ("swift", ["swift"]),
  ("lua", ["lua"]),
  ("zig", ["zig"]),
  ("shellscript", ["sh", "bash"]),
  ("json", ["json"]),
  ("jsonc", ["jsonc"]),
  ("yaml", ["yaml", "yml"]),
  ("toml", ["toml"]),
  ("markdown", ["md"]),
  ("html", ["html", "htm"]),
  ("css", ["css"]),
  ("scss", ["scss"]),
  ("vue", ["vue"]),
  ("svelte", ["svelte"])]

/-- The language of a file, `fallback` when its extension is unknown. -/
def languageOf (path : Path) (fallback : String) : String :=
  let ext := asciiLower (path.extension?.getD "")
  match languages.find? fun l => l.2.contains ext with
  | some (name, _) => name
  | none => fallback

end LspClient.Document
