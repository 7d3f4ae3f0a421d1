import LspClient.Document.Sync
import LspClient.Proofs.Connection.Parts

/-!
# What the operations on documents are made of

They take and give back the lock of a document, read files, notify the server, and record what they
have told it. What holds of these parts, and goes on from parts to programs (`Parts`), holds of all
operations.
-/

namespace LspClient.Document

open Connection (Calm)

variable {ε α β : Type} {i : Nat} {token : Token}

structure Parts (i : Nat) (token : Token) (F : {α : Type} → Work ε α → Prop) : Prop where
  pure : ∀ {α : Type} (a : α), F (Pure.pure a : Work ε α)
  bind : ∀ {α β : Type} {p : Work ε α} {k : α → Work ε β}, F p → (∀ a, F (k a)) → F (p >>= k)
  look : ∀ {α : Type} {view : World ε → α}, F (Program.look view)
  update : ∀ {f : Connection → Connection}, (∀ c, Calm c (f c)) →
    F (Program.update (World.onConnection i f))
  join : ∀ uri, F (Work.onConnection i (joinLock uri))
  lock : ∀ ticket,
    F (Work.within (Limit.ofToken token) (Connection.stepOn i (acquireLock ticket)))
  read : ∀ path, F (Work.inBackground fun w => (w.files.readText path, w))
  notify : ∀ method params, F (Connection.notify i method params)

namespace Parts

variable {F : {α : Type} → Work ε α → Prop} (h : Parts i token F)

include h

theorem release {ticket : Nat} : F (Program.update (World.onConnection i (releaseLock ticket))) :=
  h.update fun _ => .of_eq rfl rfl rfl

theorem withLock {uri : String} {operation : Work ε (Except Failure α)} (hop : F operation) :
    F (withLock i uri token operation) := by
  refine h.bind (h.join uri) fun ticket => h.bind (h.lock ticket) fun r => ?_
  match r with
  | .error e => exact h.bind h.release fun _ => h.pure _
  | .ok () => exact h.bind hop fun outcome => h.bind h.release fun _ => h.pure _

theorem readIfExists {path : Path} : F (readIfExists path) := by
  refine h.bind (h.read path) fun r => ?_
  split <;> exact h.pure _

theorem version? {uri : String} : F (version? i uri) := h.bind h.look fun _ => h.pure _

theorem sendOpen {uri content : String} {path : Path} : F (sendOpen i uri path content) := by
  refine h.bind h.look fun c => h.bind (h.notify _ _) fun r => ?_
  match r with
  | .error e => exact h.pure _
  | .ok () => exact h.bind (h.update fun _ => .of_eq rfl rfl rfl) fun _ => h.pure _

theorem sendChange {uri content : String} {current : Int} :
    F (sendChange i uri current content) := by
  refine h.bind (h.notify _ _) fun r => ?_
  match r with
  | .error e => exact h.pure _
  | .ok () => exact h.bind (h.update fun _ => .of_eq rfl rfl rfl) fun _ => h.pure _

theorem push {uri content : String} {path : Path} : F (push i uri path content) := by
  refine h.bind h.version? fun version => ?_
  match version with
  | none => exact h.bind h.sendOpen fun _ => h.pure _
  | some current => exact h.bind h.sendChange fun _ => h.pure _

theorem ensureOpen {path : Path} : F (ensureOpen i path token) := by
  unfold Document.ensureOpen
  split
  · exact h.pure _
  · refine h.withLock (h.bind h.version? fun version => ?_)
    match version with
    | some _ => exact h.pure _
    | none =>
      refine h.bind h.readIfExists fun r => ?_
      match r with
      | .error e => exact h.pure _
      | .ok none => exact h.pure _
      | .ok (some content) => exact h.bind h.sendOpen fun _ => h.pure _

theorem syncContent {path : Path} {content : String} : F (syncContent i path content token) := by
  unfold Document.syncContent
  split
  · exact h.pure _
  · next uri _ =>
    have hdrop (c : Connection) : Calm c (invalidate uri c) :=
      ⟨DiagnosticsCache.loses_invalidate _ uri, id, id⟩
    exact h.withLock (h.bind (h.update hdrop) fun _ => h.push)

theorem notifySaved {path : Path} : F (notifySaved i path token) := by
  unfold Document.notifySaved
  split
  · exact h.pure _
  · next uri _ =>
    refine h.withLock (h.bind h.version? fun version => ?_)
    match version with
    | none => exact h.pure _
    | some _ =>
      refine h.bind h.look fun c => ?_
      have hsave {content : Option String} : F (do
          return (← sendSave i uri content).map fun () => SyncOutcome.saved : Work ε _) :=
        h.bind (h.notify _ _) fun _ => h.pure _
      change F (if c.wantsTextOnSave = true then _ else _)
      split
      · refine h.bind h.readIfExists fun r => ?_
        match r with
        | .error e => exact h.pure _
        | .ok content => exact hsave
      · exact hsave

theorem refresh {path : Path} : F (refresh i path token) := by
  unfold Document.refresh
  split
  · exact h.pure _
  · refine h.withLock (h.bind h.readIfExists fun r => ?_)
    match r with
    | .error e => exact h.pure _
    | .ok none => exact h.pure _
    | .ok (some content) =>
      refine h.bind h.push fun r => ?_
      match r with
      | .error e => exact h.pure _
      | .ok outcome => exact h.bind h.look fun c => h.bind (h.notify _ _) fun _ => h.pure _

end Parts

end LspClient.Document
