import LspClient.Proofs.Connection.Correlation
import LspClient.Proofs.Document.Attending

/-!
# In step

Any number of operations on documents go on at a connection, while it is also used for everything
else. Of each document the server is told in order: it is opened once, and then changed and saved,
with versions that go up by one. While nobody works on a document, the version that is recorded is
the one that the server was told last (`inStep`).
-/

namespace LspClient.Document

open Program Crew

variable {ε : Type} {i : Nat} {w w' : World ε} {st st' : Stage} {uri : String}

abbrev Outcome := Except Failure SyncOutcome

/-! ### Crews -/

inductive Operation where
  | ensureOpen
  | syncContent (content : String)
  | notifySaved
  | refresh

structure Ask where
  operation : Operation
  path : Path
  token : Token

/-- The document that is worked on; none if the path has no URI. -/
def Ask.uri? (x : Ask) : Option String := (Uri.ofPath x.path).toOption

def Ask.program (i : Nat) (x : Ask) : Work ε Outcome :=
  match x.operation with
  | .ensureOpen => ensureOpen i x.path x.token
  | .syncContent content => syncContent i x.path content x.token
  | .notifySaved => notifySaved i x.path x.token
  | .refresh => refresh i x.path x.token

/-- Whatever else is done with a connection. -/
inductive Serves (i : Nat) : Work ε Bool → Prop
  | errorReader (errors : Channel) : Serves i (Connection.errorReader i errors)
  | writer : Serves i (Connection.writer i)
  | reader : Serves i (Connection.reader i)
  | shutdown : Serves i (once (Connection.shutdown i))
  | establish (config : ServerConfig) : Serves i (once do
      let _ ← Connection.establish i config)
  | request (method : String) (params : Option Json) (token : Token) (timeout : Option Nat) :
      Serves i (once do let _ ← Connection.request i method params token timeout)
  | notify {method : String} (params : Option Json) (h : method ∉ methods) :
      Serves i (once do let _ ← Connection.notify i method params)

/-- Anything may happen beside the connection, and to its pipes. -/
def rules (ε : Type) (i : Nat) : Rules (World ε) Ask Outcome where
  program := Ask.program i
  Serves := Serves i
  Outside w w' := Becomes i w w' (w.connection i)

def begins (x : Ask) : Stage := Stage.first x.uri?

/-- An operation that is over has no place in line. -/
def Left (_ : Ask) (st : Stage) (_ : Outcome) : Prop := st.turn? = none

theorem follows_program (x : Ask) :
    Follows (discipline ε i) (x.program i) (begins x) (Left x) := by
  unfold begins Stage.first Ask.uri? Ask.program ensureOpen syncContent notifySaved refresh
  cases Uri.ofPath x.path with
  | error e => cases x.operation <;> exact rfl
  | ok uri =>
    have hover {p : Work ε Outcome} (hp : ∀ t, Follows (discipline ε i) p (.holds uri t)
        fun st _ => MayRelease uri t st) :
        Follows (discipline ε i) (withLock i uri x.token p) (.asks uri) (Left x) :=
      (follows_withLock hp).mono fun st _ hst => by rw [Left, hst]; rfl
    cases x.operation with
    | ensureOpen => exact hover fun t => follows_openLocked x.path
    | syncContent content => exact hover fun t => follows_syncLocked x.path content
    | notifySaved => exact hover fun t => follows_saveLocked x.path
    | refresh => exact hover fun t => follows_refreshLocked x.path

theorem obeys_rules (ε : Type) (i : Nat) :
    (rules ε i).Obeys (discipline ε i) begins Left where
  program := follows_program
  serves p hp := by
    have hrest {p : Work ε Bool} (h : Follows (discipline ε i) p .idle fun st _ => st = .idle) :
        Follows (discipline ε i) p (discipline ε i).idle (discipline ε i).AtRest :=
      h.mono fun st again hst => ⟨hst, fun _ => hst⟩
    have honce {α : Type} {p : Work ε α}
        (h : Follows (discipline ε i) p .idle fun st _ => st = .idle) :
        Follows (discipline ε i) (once do let _ ← p) (discipline ε i).idle
          (discipline ε i).AtRest := by
      have hp : Follows (discipline ε i) (do let _ ← p) .idle fun st _ => st = .idle :=
        h.bind fun st _ hst => hst
      exact hp.once.atRest
    cases hp with
    | errorReader errors => exact hrest parts_follow.errorReader
    | writer => exact hrest follows_writer
    | reader => exact hrest follows_reader
    | shutdown => exact parts_follow.shutdown.once.atRest
    | establish config => exact honce parts_follow.establish
    | request method params token timeout => exact honce parts_follow.request
    | notify params h => exact honce (parts_follow.notify h)
  outside w w' _ h := .aside h

/-! ### What is seen of a run -/

abbrev Moments (ε : Type) := List (Moment (World ε))

/-- What a connection writes in a run. -/
def wireOf (i : Nat) (moments : Moments ε) : Wire :=
  moments.foldl (fun wire m => wire.next (m.before.pipe (m.before.connection i).output).sinkClosed
    (m.before.connection i) (m.after.connection i)) ⟨[], none⟩

/-- The frames that a connection has written, in order. -/
def written (i : Nat) (moments : Moments ε) : List Json := (wireOf i moments).written

/-- Nobody works on the document. -/
def Quiet (uri : String) (c : Crew (World ε) Ask Outcome) : Prop :=
  ∀ k x p, c.clients[k]? = some (x, p) → x.uri? = some uri → c.IsOver (.client k)

structure InStep (i : Nat) (moments : Moments ε) (c : Crew (World ε) Ask Outcome) : Prop where
  orderly : ∀ uri, Orderly (logOf uri (written i moments))
  level : ∀ uri, Quiet uri c → (c.state.connection i).documents.version? uri =
    lastVersion? (logOf uri (written i moments))

/-! ### Every run -/

variable {moments : Moments ε} {c : Crew (World ε) Ask Outcome}

theorem inStep {options : ConnectionOptions} {input output uptime : Nat}
    {process : Option Nat} (hi : i < w.connections.length)
    (hnew : w.connection i = Connection.make options input output process uptime)
    (run : Run (rules ε i) (Crew.ofState w) moments c) : InStep i moments c := by
  obtain ⟨P, h⟩ := (attended_make hi hnew).run (obeys_rules ε i) run
  exact {
    orderly := h.kept.versioned.orderly
    level := fun uri hquiet => h.level (fun _ _ _ hleft => hleft) hquiet }

/-! ### Two contents for one document -/

def sync (content : String) : Ask := ⟨.syncContent content, ⟨"/a.rs"⟩, Token.never⟩

theorem serves_writer : (rules Unit 0).Serves (Connection.writer 0) := .writer

/-- The second operation asks for the lock while the first one waits for its note to be written. -/
def twoSyncs : List (Choice (rules Unit 0)) :=
  [.serve (Connection.writer 0) serves_writer, .enter (sync "a"), .enter (sync "b")] ++
  List.replicate 9 (.client 0) ++ [.client 1] ++ List.replicate 4 (.service 0) ++
  List.replicate 3 (.client 0) ++ List.replicate 8 (.client 1) ++
  List.replicate 4 (.service 0) ++ List.replicate 3 (.client 1)

theorem inStep_twoSyncs :
    (play twoSyncs ([], Crew.ofState Connection.alone)).2.clients.map
        (fun e => e.2.result?.bind Except.toOption) = [some .opened, some (.changed 2)] ∧
      logOf "file:///a.rs" (written 0 (play twoSyncs ([], Crew.ofState Connection.alone)).1) =
        [.opened 1, .changed 2] ∧
      InStep 0 (play twoSyncs ([], Crew.ofState Connection.alone)).1
        (play twoSyncs ([], Crew.ofState Connection.alone)).2 := by
  have hi : 0 < Connection.alone.connections.length := Nat.zero_lt_one
  rw [← and_assoc]
  exact ⟨by decide +kernel, inStep hi rfl (run_play twoSyncs .nil)⟩

end LspClient.Document
