import LspClient.Path
import LspClient.Settings.Basic

/-!
# Connection keys

What a connection is filed under: the command line, its words joined by spaces, and the directory
it runs in.
-/

namespace LspClient

structure ConnectionKey where
  command : String
  cwd : Path
  deriving DecidableEq, Repr, Inhabited

namespace ConnectionKey

def make (config : ServerConfig) (cwd : Path) : ConnectionKey where
  command := " ".intercalate (config.command :: config.args)
  cwd := cwd

def text (k : ConnectionKey) : String := s!"{k.command} @ {k.cwd}"

/-- Whether two keys stand for one connection. -/
def Same (a b : ConnectionKey) : Prop := a.command = b.command ∧ a.cwd.Same b.cwd

instance (a b : ConnectionKey) : Decidable (a.Same b) := inferInstanceAs (Decidable (_ ∧ _))

end ConnectionKey

end LspClient
