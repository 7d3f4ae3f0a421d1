import LspClient.Path
import LspClient.Table

/-!
# Batches

Writes that are put off until their batch is flushed. A batch holds one entry for each path, in the
order in which the paths first came; a later write to a path takes the place of the earlier one.
-/

namespace LspClient

/-- Which of the optional steps run for a write. -/
structure WriteOptions where
  format : Bool
  diagnostics : Bool
  deriving DecidableEq, Repr, Inhabited

structure WriteEntry where
  path : Path
  content : String
  options : WriteOptions
  deriving Repr, Inhabited

abbrev Batches := Table String (List WriteEntry)

namespace Batches

/-- The entries with a new one, which takes the place of one for the same path. -/
def enter (entry : WriteEntry) : List WriteEntry → List WriteEntry
  | [] => [entry]
  | e :: rest => if e.path.Same entry.path then entry :: rest else e :: enter entry rest

def queued (b : Batches) (id : String) : List WriteEntry := (b.get? id).getD []

/-- Put a write off; the answer is the length of its batch. -/
def defer (b : Batches) (id : String) (entry : WriteEntry) : Nat × Batches :=
  let entries := enter entry (b.queued id)
  (entries.length, b.put id entries)

/-- Take a batch out, with one more entry. -/
def flush (b : Batches) (id : String) (entry : WriteEntry) : List WriteEntry × Batches :=
  (enter entry (b.queued id), b.erase id)

end Batches

end LspClient
