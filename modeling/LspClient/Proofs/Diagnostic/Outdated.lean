import LspClient.Proofs.Diagnostic.Freshness
import LspClient.Proofs.Document.InStep

/-!
# Diagnostics of older versions

A publish may say which version of its document it is about. A wait does not ask for it: it returns
the items of whatever was published last for its URI, if that was taken in since its floor was read
(`Brings`). They are about the version that the server was told last, or a later one, unless the
server publishes for an older version after the floor was read (`current_unless_late`).
-/

namespace LspClient

/-- The publish is about an older version of its document than this one. -/
def Publish.IsOlder (p : Publish) (version : Option Int) : Prop :=
  ∃ v n, p.version = some v ∧ version = some n ∧ v < n

namespace Diagnostics

open Program
open Crew (Run Logged Log Move Choice ofState)
open DiagnosticsCache (Latest)
open Connection (takeFrame)

variable {ε : Type} {i k : Nat} {uri : String} {w₀ : World ε} {start c c' : WaitCrew ε}
  {a : Actor} {q : Wait} {items : List Diagnostic}
  {p : Work ε (Except Failure (List Diagnostic))}

/-- A publish with the items that it comes to. -/
abbrev Taken := Publish × List Diagnostic

/-- What a move publishes, in full. -/
inductive TakesIn (i : Nat) (c : WaitCrew ε) : Actor → List Taken → Prop
  | frame {k : Nat} {body : Work ε Bool} {frame : Json} {p : Publish}
      (hk : c.services[k]? = some (body, takeFrame i frame)) (hp : Publishes frame p) :
      TakesIn i c (.service k) [(p, p.items (c.state.connection i).name)]
  | nothing {a : Actor} (h : ∀ k body frame p, a = .service k →
      c.services[k]? = some (body, takeFrame i frame) → ¬ Publishes frame p) :
      TakesIn i c a []

theorem exists_takesIn (c : WaitCrew ε) (a : Actor) : ∃ new, TakesIn i c a new := by
  by_cases h : ∃ k body frame p, a = .service k ∧
      c.services[k]? = some (body, takeFrame i frame) ∧ Publishes frame p
  · obtain ⟨k, body, frame, p, rfl, hk, hp⟩ := h
    exact ⟨_, .frame hk hp⟩
  · exact ⟨[], .nothing fun k body frame p ha hk hp => h ⟨k, body, frame, p, ha, hk, hp⟩⟩

/-- What the cache makes of a publish. -/
def Taken.entry (e : Taken) : String × List Diagnostic := (e.1.uri, e.2)

theorem TakesIn.publication {new : List Taken} (h : TakesIn i c a new) :
    Publication i c a (new.map Taken.entry) := by
  cases h with
  | frame hk hp => exact .frame hk hp
  | nothing h => exact .nothing h

/-- The runs of a connection, with the publishes that were taken in. -/
abbrev Taking (i : Nat) (start : WaitCrew ε) (log : Log (World ε) Taken) (c : WaitCrew ε) : Prop :=
  Logged (rules ε i) (TakesIn i) start log c

theorem publishing_read {log : Log (World ε) Taken} (h : Taking i start log c) :
    Publishing i start (log.read Taken.entry) c :=
  h.read fun _ _ _ => TakesIn.publication

/-- The publish that is the last one for the URI, and comes to these items. -/
def LastFor (uri : String) (items : List Diagnostic) (taken : List Taken) (p : Publish) : Prop :=
  ∃ earlier later, taken = earlier ++ (p, items) :: later ∧ p.uri = uri ∧
    ∀ e ∈ later, e.1.uri ≠ uri

theorem exists_lastFor {taken : List Taken} {n : Nat}
    (h : Latest (taken.map Taken.entry) uri items n) : ∃ p, LastFor uri items taken p := by
  obtain ⟨earlier, later, heq, -, hlater⟩ := h
  obtain ⟨before, rest, rfl, -, hrest⟩ := List.map_eq_append_iff.1 heq
  obtain ⟨⟨p, items'⟩, after, rfl, hp, rfl⟩ := List.map_eq_cons_iff.1 hrest
  cases hp
  exact ⟨p, before, after, rfl, rfl, fun e he => hlater _ (List.mem_map_of_mem he)⟩

theorem LastFor.mem {taken : List Taken} {p : Publish} (h : LastFor uri items taken p) :
    (p, items) ∈ taken ∧ p.uri = uri := by
  obtain ⟨earlier, later, rfl, huri, -⟩ := h
  exact ⟨List.mem_append_right _ (List.mem_cons_self ..), huri⟩

/-! ### What a wait brings -/

/-- The version of a document that the connection has written last. -/
def told (i : Nat) (uri : String) (moments : Document.Moments ε) : Option Int :=
  Document.lastVersion? (Document.logOf uri (Document.written i moments))

/-- None of the publishes for the URI is about an older version than this one. -/
def NoneLate (uri : String) (version : Option Int) (taken : List Taken) : Prop :=
  ∀ e ∈ taken, e.1.uri = uri → ¬ e.1.IsOlder version

/-- What a wait returns that takes its last step at `c`, in a run from `start`, where its floor was
read; `moments₀` led there. It took its first step at `begun`, and looked at the cache for the last
time at `read`; what counts is what had been taken in by then since the floor was read. -/
inductive Brings (i k : Nat) (q : Wait) (items : List Diagnostic) (moments₀ : Document.Moments ε)
    (start : WaitCrew ε) : Log (World ε) Taken → WaitCrew ε → Prop
  | intro {begun next read seen c : WaitCrew ε} {before between after : Log (World ε) Taken}
      (hbefore : Run (rules ε i) start before.moments begun)
      (hk : begun.clients[k]? = some (q, q.program i))
      (hmove : Move (rules ε i) begun (.client k) next)
      (hbetween : Run (rules ε i) next between.moments read)
      (hlook : LastLook i k q (begun.state.clock + q.timeout) read seen after.moments c)
      (hbrings : c.state.clock < begun.state.clock + q.timeout →
        (c.state.connection i).isAlive = true →
        ∃ p, LastFor q.uri items (before.notes ++ between.notes) p ∧
          (NoneLate q.uri (told i q.uri (moments₀ ++ before.moments))
              (before.notes ++ between.notes) →
            ¬ p.IsOlder (told i q.uri (moments₀ ++ before.moments)))) :
      Brings i k q items moments₀ start
        (before ++ (⟨.client k, begun.state, next.state⟩, []) ::
          (between ++ (⟨.client k, read.state, seen.state⟩, []) :: after)) c

theorem brings_of_returns {moments₀ : Document.Moments ε} {log : Log (World ε) Taken}
    (h : Returns i k q items start (log.read Taken.entry) c) :
    Brings i k q items moments₀ start log c := by
  generalize hlog : log.read Taken.entry = entries at h
  cases h with
  | intro hbefore hbegun hmove hbetween hlook hafter hitems hfresh =>
    obtain ⟨before, rest, rfl, rfl, hrest⟩ := Log.exists_of_read_eq_append hlog
    obtain ⟨later, rfl, hlater⟩ := Log.exists_of_read_eq_cons_nil hrest
    obtain ⟨between, rest, rfl, rfl, hlast⟩ := Log.exists_of_read_eq_append hlater
    obtain ⟨after, rfl, rfl⟩ := Log.exists_of_read_eq_cons_nil hlast
    have hbefore := hbefore.run
    have hbetween := hbetween.run
    rw [Log.moments_read] at hbefore hbetween hlook
    refine .intro hbefore hbegun hmove hbetween hlook fun hclock halive => ?_
    obtain ⟨n, hlatest⟩ := hfresh hclock halive
    rw [Log.notes_read, Log.notes_read, ← List.map_append] at hlatest
    obtain ⟨p, hp⟩ := exists_lastFor hlatest
    exact ⟨p, hp, fun hnone => hnone _ hp.mem.1 hp.mem.2⟩

/-- In every run of a connection, in which the floors of waits are read at any moment. -/
theorem current_unless_late {options : ConnectionOptions} {input output uptime : Nat}
    {process : Option Nat} {moments₀ moments : Document.Moments ε}
    (hi : i < w₀.connections.length)
    (hnew : w₀.connection i = Connection.make options input output process uptime)
    (run₀ : Run (rules ε i) (ofState w₀) moments₀ start)
    (run : Run (rules ε i) start moments c) :
    ∃ log, log.moments = moments ∧ Taking i start log c ∧
      ∀ k q p c' items, start.clients.length ≤ k →
        q.floor = some (start.state.connection i).cache.version →
        c.clients[k]? = some (q, p) → Move (rules ε i) c (.client k) c' →
        c'.clients[k]? = some (q, pure (.ok items)) →
        Brings i k q items moments₀ start log c := by
  have hempty : (w₀.connection i).cache = .empty := by rw [hnew]; rfl
  obtain ⟨log₀, -, h₀⟩ := run₀.exists_logged (exists_publication (i := i))
  obtain ⟨log, rfl, h⟩ := run.exists_logged (exists_takesIn (i := i))
  refine ⟨log, rfl, h, fun k q p c' items hk hfloor hp hmove hp' => brings_of_returns ?_⟩
  exact returns_of_publishing hi hempty h₀ (publishing_read h) hk hfloor hp hmove hp'

/-! ### A document that is changed once -/

def syncing (content : String) : Work Unit Bool :=
  once do let _ ← Document.syncContent 0 ⟨"/a.rs"⟩ content Token.never

theorem serves_syncing (content : String) : (rules Unit 0).Serves (syncing content) :=
  .inr (Keeps.bind (Keeps.bind Connection.mild_documents.syncContent fun _ => .pure _)
    fun _ => .pure _)

theorem serves_reader : (rules Unit 0).Serves (Connection.reader 0) := .inl rfl

theorem serves_writer : (rules Unit 0).Serves (Connection.writer 0) :=
  .inr Connection.mild_writer

/-- The document is opened, and then changed. -/
def changedOnce : List (Choice (rules Unit 0)) :=
  List.flatten [
    [.serve (Connection.reader 0) serves_reader, .serve (Connection.writer 0) serves_writer,
      .serve (syncing "one") (serves_syncing "one"),
      .serve (syncing "two") (serves_syncing "two")],
    List.replicate 9 (.service 2), [.service 3], List.replicate 4 (.service 1),
    List.replicate 3 (.service 2), List.replicate 8 (.service 3), List.replicate 4 (.service 1),
    List.replicate 3 (.service 3)]

def paramsAbout (version : Int) : Json :=
  .object [("uri", .str "file:///a.rs"), ("version", .int version),
    ("diagnostics", .arr [diagnosticOf "found"])]

def publishingAbout (version : Int) : Choice (rules Unit 0) :=
  let frame := Message.ofNotification Method.publishDiagnostics (some (paramsAbout version))
  .outside (World.onPipe 0 fun p => p.push (Frame.write frame)) fun _ =>
    Connection.Aside.mild (.onPipe fun _ h => h)

def waitForChange : Wait := ⟨"file:///a.rs", 1000, some 0, Token.never⟩

/-- The wait sleeps when the publish comes. -/
def waitedFor (version : Int) : List (Choice (rules Unit 0)) :=
  .enter waitForChange :: List.replicate 4 (.client 0) ++
  publishingAbout version :: List.replicate 3 (.service 0) ++ pausing :: List.replicate 3 (.client 0)

def onceChanged : Document.Moments Unit × WaitCrew Unit :=
  Crew.play changedOnce ([], ofState Connection.alone)

theorem current_unless_late_onceChanged :
    ∃ log, log.moments = (Crew.play (waitedFor 2) ([], onceChanged.2)).1 ∧
      Taking 0 onceChanged.2 log (Crew.play (waitedFor 2) ([], onceChanged.2)).2 ∧
      ∀ k q p c' items, onceChanged.2.clients.length ≤ k →
        q.floor = some (onceChanged.2.state.connection 0).cache.version →
        (Crew.play (waitedFor 2) ([], onceChanged.2)).2.clients[k]? = some (q, p) →
        Move (rules Unit 0) (Crew.play (waitedFor 2) ([], onceChanged.2)).2 (.client k) c' →
        c'.clients[k]? = some (q, pure (.ok items)) →
        Brings 0 k q items onceChanged.1 onceChanged.2 log
          (Crew.play (waitedFor 2) ([], onceChanged.2)).2 :=
  current_unless_late (show 0 < Connection.alone.connections.length by decide) rfl
    (Crew.run_play changedOnce .nil) (Crew.run_play (waitedFor 2) .nil)

/-- A publish about the version before the change ends the wait, and its items are returned. -/
theorem late_publish_ends_wait :
    Publish.decode (paramsAbout 1) =
        .ok ⟨"file:///a.rs", some 1, [⟨⟨⟨0, 0⟩, ⟨0, 0⟩⟩, none, none, none, "found", none⟩]⟩ ∧
      told 0 "file:///a.rs" onceChanged.1 = some 2 ∧
      (Crew.play (waitedFor 1 ++ [.client 0]) ([], onceChanged.2)).2.clients.map
          (fun e => (e.2.result?.bind Except.toOption).map (List.map Diagnostic.message)) =
        [some ["found"]] := by
  refine ⟨rfl, ?_⟩
  decide +kernel

end Diagnostics

end LspClient
