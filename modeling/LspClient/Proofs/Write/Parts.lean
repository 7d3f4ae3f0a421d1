import LspClient.Proofs.Document.Operations
import LspClient.Proofs.Program.Heeding
import LspClient.Write.Pipeline

/-!
# What the write pipeline is made of

It connects to servers, works on documents, asks servers and linters, puts texts into files, and
sleeps. What holds of these parts, and goes on from parts to programs that run one after another or
side by side (`Parts`), holds of the pipeline. The later steps of it are made of fewer parts
(`Steps`, `Acts`, `Waits`).
-/

namespace LspClient.Session

open Program

variable {ε α β : Type} {s : Session ε} {token : Token}

def pipeline (s : Session ε) (entry : WriteEntry) (timeout : Nat) (token : Token) :
    Work ε (Except Failure WriteReport) :=
  (s.runPipeline entry timeout token).run (WriteAct.performed s)

/-- What is left of a pipeline that has reached its servers. -/
def carryOut (s : Session ε) (entry : WriteEntry) (timeout : Nat) (token : Token)
    (reached : Reached) (floors : List (String × Nat)) :
    WriteScript ε (Except Failure WriteReport) := do
  match ← s.prepare entry reached.targets token (WriteReport.start entry.path) with
  | .error e => return .error e
  | .ok (content, r) =>
    match ← WriteScript.store entry.path content with
    | .error e => return .error e
    | .ok () =>
      let r := { r with bytes := content.utf8ByteSize }
      let connections := reached.targets.filterMap Applicable.connection?
      let r ← .lift (saveAll connections entry.path token r)
      return .ok (← .lift (s.conclude entry reached floors timeout token r))

/-- What a write waits for and asks of linters once the file is on disk. -/
structure Waits (s : Session ε) (token : Token) (F : {α : Type} → Work ε α → Prop) : Prop where
  pure : ∀ {α : Type} (a : α), F (Pure.pure a : Work ε α)
  bind : ∀ {α β : Type} {p : Work ε α} {k : α → Work ε β}, F p → (∀ a, F (k a)) → F (p >>= k)
  all : ∀ {α : Type} (ps : List (Work ε α)), (∀ p ∈ ps, F p) → F (Program.all ps)
  look : ∀ {α : Type} {view : World ε → α}, F (Program.look view)
  sleep : ∀ due, F (Work.sleepWithin (Limit.ofToken token) due)
  lint : ∀ name kind path expiry, F ((s.linters name kind).lint path ⟨token, expiry⟩)

/-- What a write does by itself, and asks of linters. -/
structure Acts (s : Session ε) (token : Token) (F : {α : Type} → Work ε α → Prop) : Prop extends
    Waits s token F where
  store : ∀ path content, F (persist path content)
  format : ∀ name kind path content, F ((s.linters name kind).format path content token)

/-- What a write is made of that has reached its servers. -/
structure Steps (s : Session ε) (token : Token) (F : {α : Type} → Work ε α → Prop) : Prop extends
    Acts s token F where
  document : ∀ i, Document.Parts i token F
  request : ∀ i method params timeout, F (Connection.request i method params token timeout)

structure Parts (s : Session ε) (token : Token) (F : {α : Type} → Work ε α → Prop) : Prop extends
    Steps s token F where
  connect : ∀ name config cwd warmup,
    F (Registry.getOrCreate s.connect name config cwd warmup token)

theorem keeps_waits {G : World ε → World ε → Prop} (hG : ∀ w, G w w)
    (hlint : ∀ name kind path expiry,
      Keeps G ((s.linters name kind).lint path ⟨token, expiry⟩)) :
    s.Waits token fun p => Keeps G p where
  pure := .pure
  bind := .bind
  all := .all
  look := .look hG
  sleep _ := .await fun w r w' h => by
    split at h
    · cases h
      exact hG w
    · split at h
      · cases h
        exact hG w
      · cases h
  lint := hlint

theorem keeps_persist {G : World ε → World ε → Prop} (hjob : ∀ w, G w w.beginJob.2)
    (hfiles : ∀ w files, G w { w with files }) {path : Path} {content : String} :
    Keeps G (persist path content) := by
  refine .bind (Work.keeps_inBackground hjob fun w => hfiles w _) fun e => ?_
  cases e <;> exact .pure _

variable {F : {α : Type} → Work ε α → Prop}

namespace Waits

variable (h : s.Waits token F)

include h

/-! ### Diagnostics -/

theorem waitUntilFresh {i deadline : Nat} {uri : String} {floor : Option Nat} (rounds : Nat) :
    F (Diagnostics.waitUntilFresh i uri deadline floor token rounds) := by
  induction rounds with
  | zero => exact h.bind h.look fun _ => h.pure _
  | succ rounds ih =>
    refine h.bind h.look fun _ => h.bind h.look fun _ => h.bind h.look fun now => ?_
    split
    · exact h.pure _
    · refine h.bind (h.sleep _) fun r => ?_
      match r with
      | .error e => exact h.pure _
      | .ok () => exact ih

theorem ofTarget {path : Path} {uri : String} {timeout : Nat} {floors : List (String × Nat)}
    (target : Applicable) (hdocument : ∀ i, target.connection? = some i → Document.Parts i token F) :
    F (Diagnostics.ofTarget s.linters path uri timeout floors token target) := by
  match target with
  | .protocol name i =>
    refine h.bind ?_ fun _ => h.pure _
    refine h.bind h.look fun c => h.bind (hdocument i rfl).refresh fun r => ?_
    match r with
    | .error e => exact h.pure _
    | .ok _ => exact h.bind h.look fun _ => h.waitUntilFresh _
  | .linter name kind =>
    exact h.bind (h.bind h.look fun _ => h.lint name kind _ _) fun _ => h.pure _

theorem collect {path : Path} {targets : List Applicable} {timeout : Nat}
    {floors : List (String × Nat)} (hdocument : ∀ i, Document.Parts i token F) :
    F (Diagnostics.collect s.linters path targets timeout floors token) := by
  unfold Diagnostics.collect
  split
  · exact h.pure _
  · split
    · exact h.pure _
    · refine h.bind (h.all _ fun p hp => ?_) fun results => ?_
      · obtain ⟨target, -, rfl⟩ := List.mem_map.1 hp
        exact h.ofTarget target fun i _ => hdocument i
      · refine h.bind h.look fun cancelled => ?_
        split <;> exact h.pure _

/-! ### Steps -/

theorem onAll {connections : List Nat} {operation : Nat → Work ε (Except Failure SyncOutcome)}
    (hop : ∀ i, F (operation i)) : F (onAll connections operation) := by
  refine h.all _ fun p hp => ?_
  obtain ⟨i, -, rfl⟩ := List.mem_map.1 hp
  exact h.bind (hop i) fun outcome => h.bind h.look fun c => h.pure _

theorem saveAll {connections : List Nat} {path : Path} {r : WriteReport}
    (hdocument : ∀ i, Document.Parts i token F) : F (saveAll connections path token r) := by
  refine h.bind h.look fun cancelled => ?_
  split
  · exact h.pure _
  · exact h.bind (h.onAll fun i => (hdocument i).notifySaved) fun _ => h.pure _

theorem conclude {entry : WriteEntry} {reached : Reached} {floors : List (String × Nat)}
    {timeout : Nat} {r : WriteReport} (hdocument : ∀ i, Document.Parts i token F) :
    F (s.conclude entry reached floors timeout token r) := by
  refine h.bind h.look fun cancelled => ?_
  split
  · refine h.bind (h.collect hdocument) fun found => ?_
    cases found with
    | ok found => exact h.pure _
    | error e =>
      dsimp only
      split <;> exact h.pure _
  · exact h.pure _

end Waits

namespace Acts

variable (h : s.Acts token F)

include h

/-! ### Scripts -/

theorem run_bind {p : WriteScript ε α} {k : α → WriteScript ε β}
    (hp : F (p.run (WriteAct.performed s))) (hk : ∀ a, F ((k a).run (WriteAct.performed s))) :
    F ((p >>= k).run (WriteAct.performed s)) := by
  rw [Program.run_bind]
  exact h.bind hp hk

theorem run_lift {p : Work ε α} (hp : F p) :
    F ((Script.lift p : WriteScript ε α).run (WriteAct.performed s)) :=
  h.bind hp fun a => h.pure a

theorem run_perform {o : WriteAct} (ho : F (WriteAct.performed s o)) :
    F ((Script.perform o : WriteScript ε o.Answer).run (WriteAct.performed s)) :=
  h.bind ho fun a => h.pure a

theorem formatWithLinter {name : String} {kind : LinterKind} {entry : WriteEntry}
    {r : WriteReport} :
    F ((formatWithLinter name kind entry token r).run (WriteAct.performed s)) := by
  refine h.run_bind (h.run_perform (h.store _ _)) fun stored => ?_
  match stored with
  | .error e => exact h.pure _
  | .ok () =>
    refine h.run_bind (h.run_lift h.look) fun cancelled => ?_
    split
    · exact h.pure _
    · refine h.run_bind (h.run_perform (h.format name kind _ _)) fun answer => ?_
      cases answer <;> exact h.pure _

end Acts

namespace Steps

variable (h : s.Steps token F)

include h

theorem syncAll {connections : List Nat} {path : Path} {content : String} {r : WriteReport} :
    F (syncAll connections path content token r) := by
  refine h.bind h.look fun cancelled => ?_
  split
  · exact h.pure _
  · exact h.bind (h.onAll fun i => (h.document i).syncContent) fun _ => h.pure _

theorem formatWithServer {connections : List Nat} {path : Path} {content : String}
    {r : WriteReport} :
    F ((formatWithServer connections path content token r).run (WriteAct.performed s)) := by
  refine h.run_bind (h.run_lift h.look) fun cancelled => ?_
  split
  · exact h.pure _
  refine h.run_bind (h.run_lift h.look) fun formatter => ?_
  match formatter with
  | none => exact h.pure _
  | some i =>
    refine h.run_bind (h.run_lift h.look) fun c => ?_
    dsimp only
    split
    · exact h.pure _
    · refine h.run_bind (h.run_perform (h.request i _ _ _)) fun answer => ?_
      cases answer <;> exact h.pure _

theorem prepare {entry : WriteEntry} {targets : List Applicable} {r : WriteReport} :
    F ((s.prepare entry targets token r).run (WriteAct.performed s)) := by
  unfold Session.prepare
  dsimp only
  split
  · refine h.run_bind h.formatWithLinter fun formatted => ?_
    cases formatted with
    | error e => exact h.pure _
    | ok formatted => exact h.run_bind (h.run_lift h.syncAll) fun _ => h.pure _
  · refine h.run_bind (h.run_lift h.syncAll) fun r => ?_
    split
    · exact h.pure _
    · refine h.run_bind h.formatWithServer fun formatted => ?_
      match formatted with
      | (none, r) => exact h.pure _
      | (some formatted, r) => exact h.run_bind (h.run_lift h.syncAll) fun _ => h.pure _

theorem carryOut {entry : WriteEntry} {timeout : Nat} {reached : Reached}
    {floors : List (String × Nat)} :
    F ((s.carryOut entry timeout token reached floors).run (WriteAct.performed s)) := by
  refine h.run_bind h.prepare fun prepared => ?_
  cases prepared with
  | error e => exact h.pure _
  | ok prepared =>
    refine h.run_bind (h.run_perform (h.store _ _)) fun stored => ?_
    match stored with
    | .error e => exact h.pure _
    | .ok () =>
      refine h.run_bind (h.run_lift (h.saveAll h.document)) fun r => ?_
      exact h.run_bind (h.run_lift (h.conclude h.document)) fun _ => h.pure _

end Steps

namespace Parts

variable (h : s.Parts token F)

include h

theorem applicable {path : Path} : F (s.applicable path token) := by
  refine h.bind h.look fun targets => h.bind (h.all _ fun p hp => ?_) fun _ => h.pure _
  obtain ⟨target, -, rfl⟩ := List.mem_map.1 hp
  match target with
  | .protocol name config cwd => exact h.bind (h.connect _ _ _ _) fun _ => h.pure _
  | .linter name kind => exact h.pure _

theorem pipeline {entry : WriteEntry} {timeout : Nat} : F (s.pipeline entry timeout token) :=
  h.run_bind (h.run_lift h.applicable) fun _ => h.run_bind (h.run_lift h.look) fun _ => h.carryOut

end Parts

end LspClient.Session
