import LspClient.Proofs.Program.Steps
import LspClient.Workspace.Handler

/-!
# What answering a request of the server is made of

The one request that does anything is that for an edit: it reads files and puts texts into files, in
the background. All others are answered at once. What holds of these two kinds of work, and goes on
from parts to programs (`EditParts`), holds of the answer to every request.
-/

namespace LspClient

open Program

variable {ε α : Type} {G : World ε → World ε → Prop}

theorem Work.keeps_inBackground {step : World ε → α × World ε} (hjob : ∀ w, G w w.beginJob.2)
    (hstep : ∀ w, G w (step w).2) : Keeps G (Work.inBackground step) := by
  refine Keeps.bind (Keeps.act hjob) fun job => Keeps.await fun w a w' hs => ?_
  obtain ⟨-, hs⟩ := Option.ite_none_right_eq_some.1 hs
  have heq : step w = (a, w') := Option.some.inj hs
  have hG := hstep w
  rwa [heq] at hG

namespace Workspace

/-- To put a text into a file is a step on the files. -/
theorem writeText_snd (path : Path) (content : String) (w : World ε) :
    ∃ files, (writeText path content w).2 = { w with files } := by
  unfold writeText
  exact ⟨_, rfl⟩

theorem connections_writeText (path : Path) (content : String) (w : World ε) :
    (writeText path content w).2.connections = w.connections := by
  obtain ⟨files, h⟩ := writeText_snd path content w
  rw [h]

structure EditParts (F : {α : Type} → Work ε α → Prop) : Prop where
  pure : ∀ {α : Type} (a : α), F (Pure.pure a : Work ε α)
  bind : ∀ {α β : Type} {p : Work ε α} {k : α → Work ε β}, F p → (∀ a, F (k a)) → F (p >>= k)
  read : ∀ path, F (Work.inBackground (readText path))
  write : ∀ path content, F (Work.inBackground (writeText path content))

/-- The method of the request that has files edited. -/
def editMethod : String := "workspace/applyEdit"

namespace EditParts

variable {F : {α : Type} → Work ε α → Prop} (h : EditParts F)

include h

theorem editFile {uri : String} {edits : List TextEdit} : F (Workspace.editFile uri edits) := by
  unfold Workspace.editFile
  split
  · exact h.pure _
  · refine h.bind (h.read _) fun content => ?_
    split
    · exact h.pure _
    · split
      · exact h.pure _
      · split
        · exact h.pure _
        · refine h.bind (h.write _ _) fun e => ?_
          cases e <;> exact h.pure _

theorem editFiles (files : List (String × List TextEdit)) : F (Workspace.editFiles files) := by
  induction files with
  | nil => exact h.pure _
  | cons _ rest ih =>
    refine h.bind h.editFile fun
      | some _ => h.pure _
      | none => ih

theorem applyEdit {params : Option Json} : F (Workspace.applyEdit params) := by
  unfold Workspace.applyEdit
  split
  · exact h.pure _
  · split
    · exact h.pure _
    · exact h.bind (h.editFiles _) fun _ => h.pure _

end EditParts

theorem handle_of_parts {F : {α : Type} → Work ε α → Prop} {settings : Option Json}
    {method : String} {params : Option Json}
    (hpure : ∀ {α : Type} (a : α), F (Pure.pure a : Work ε α))
    (h : method = editMethod → EditParts F) : F (handle settings method params) := by
  unfold handle
  split
  case h_2 => exact (h rfl).applyEdit
  all_goals exact hpure _

theorem editParts_keeps (hself : ∀ w, G w w) (hjob : ∀ w, G w w.beginJob.2)
    (hfiles : ∀ w t, G w { w with files := t }) : EditParts fun p => Keeps G p where
  pure := Keeps.pure
  bind := Keeps.bind
  read _ := Work.keeps_inBackground hjob hself
  write _ _ := Work.keeps_inBackground hjob fun w => hfiles w _

end Workspace

end LspClient
