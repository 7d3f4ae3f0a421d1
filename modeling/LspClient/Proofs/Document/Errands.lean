import LspClient.Proofs.Document.Hearing
import LspClient.Proofs.Document.Speech
import LspClient.Proofs.Program.Hosting

/-!
# Errands

A program that uses a connection has others run errands there: operations on documents, and
requests. Whatever else it does spares the connection (`Spares`). It goes on in courses: nobody works
on a document at the beginning of one, and nobody at its end (`Course`). In a course the server is
told of the document what the errands are to say, and nothing else (`Course.go_on`).
-/

namespace LspClient.Document

open Program Crew

variable {ε α : Type} {i : Nat} {w w' : World ε} {uri : String} {path : Path} {token : Token}
  {moments : List (Moment (World ε))}

/-! ### The end of a connection -/

/-- If the connection ends, it is with nothing but that. -/
def EndsAsClosed (i : Nat) (w w' : World ε) : Prop :=
  (w.connection i).calls.EndsClosed → (w'.connection i).calls.EndsClosed

theorem endsAsClosed_setConnection {c : Connection}
    (h : (w.connection i).calls.EndsClosed → c.calls.EndsClosed) :
    EndsAsClosed i w (w.setConnection i c) := by
  intro hw
  rcases Connection.connection_setConnection_cases w i c with heq | heq
  · rw [heq]
    exact h hw
  · rwa [heq]

theorem endsAsClosed_of_aside (h : Connection.Aside i w w') : EndsAsClosed i w w' :=
  h.apart.calm.ends

theorem endsAsClosed_of_posts (h : Connection.Posts i w w') : EndsAsClosed i w w' := by
  obtain ⟨outbox, writing, heq⟩ := h.connection
  intro hw
  rw [heq]
  exact hw

theorem endsAsClosed_parts :
    Connection.Parts (ε := ε) i fun p => Keeps (EndsAsClosed i) p :=
  Connection.parts_keeps (fun _ _ => endsAsClosed_of_aside) fun _ _ => endsAsClosed_of_posts

theorem endsAsClosed_documents :
    Parts (ε := ε) i token fun p => Keeps (EndsAsClosed i) p where
  pure := .pure
  bind := .bind
  look := .look fun _ h => h
  update h := .update fun _ => endsAsClosed_setConnection (h _).ends
  join _ := .act fun _ => endsAsClosed_setConnection id
  lock _ := Connection.keeps_within (fun _ h => h) fun w r w' hs => by
    obtain ⟨⟨r', c'⟩, hc', heq⟩ := Option.map_eq_some_iff.1 hs
    cases heq
    obtain ⟨locks, -, heq⟩ := Option.map_eq_some_iff.1 hc'
    cases heq
    exact endsAsClosed_setConnection id
  read _ := endsAsClosed_parts.inBackground fun w => .refl w
  notify _ _ := Connection.keeps_notify (fun _ _ => endsAsClosed_of_aside)
    fun _ _ => endsAsClosed_of_posts

theorem Parts.program {F : {α : Type} → Work ε α → Prop} {x : Ask} (h : Parts i x.token F) :
    F (x.program i) := by
  unfold Ask.program
  cases x.operation with
  | ensureOpen => exact h.ensureOpen
  | syncContent content => exact h.syncContent
  | notifySaved => exact h.notifySaved
  | refresh => exact h.refresh

theorem closeError_receive (frame : Json) (c : Connection) :
    (Connection.receive frame c).2.calls.closeError = c.calls.closeError := by
  have hresponse (id : Nat) (outcome : Except ResponseError Json) :
      (c.takeResponse id outcome).2.calls.closeError = c.calls.closeError := by
    unfold Connection.takeResponse
    split
    · next h =>
      exact congrArg (fun e => e.2.closeError) h.symm
    · rfl
  have hpublish (params : Json) :
      (c.takePublish params).calls.closeError = c.calls.closeError := by
    unfold Connection.takePublish
    split <;> rfl
  unfold Connection.receive
  split
  · rfl
  · exact hresponse _ _
  · rfl
  · split
    · dsimp only
      split
      · exact hpublish _
      · rfl
    · rfl

theorem endsAsClosed_reader : Keeps (EndsAsClosed i) (Connection.reader i : Work ε Bool) := by
  refine endsAsClosed_parts.reader fun frame => .act fun w => endsAsClosed_setConnection fun h => ?_
  rwa [Calls.EndsClosed, closeError_receive]

theorem endsAsClosed_serves {p : Work ε Bool} (h : Serves i p) : Keeps (EndsAsClosed i) p := by
  cases h with
  | errorReader errors => exact endsAsClosed_parts.errorReader
  | writer =>
    exact Connection.keeps_writer (fun _ _ => endsAsClosed_of_aside)
      fun _ _ => endsAsClosed_of_posts
  | reader => exact endsAsClosed_reader
  | shutdown => exact endsAsClosed_parts.shutdown.once
  | establish config =>
    exact (Keeps.bind endsAsClosed_parts.establish fun _ => Keeps.pure ()).once
  | request method params token timeout =>
    exact (Keeps.bind endsAsClosed_parts.request fun _ => Keeps.pure ()).once
  | notify params h => exact (Keeps.bind (endsAsClosed_parts.notify h) fun _ => Keeps.pure ()).once

/-! ### Errands -/

inductive Errand where
  | document (x : Ask)
  | request (method : String) (params : Option Json) (token : Token) (timeout : Option Nat)

namespace Errand

/-- The document that is worked on. -/
def uri? : Errand → Option String
  | .document x => x.uri?
  | .request .. => none

/-- What comes of a request is nobody's business here. -/
def program (i : Nat) : Errand → Work ε (Option Outcome)
  | .document x => do return some (← x.program i)
  | .request method params token timeout => do
    let _ ← Connection.request i method params token timeout
    return none

end Errand

/-- A step beside a connection: its documents are let alone, and it does not end otherwise than by
being closed. -/
structure Spares (i : Nat) (w w' : World ε) : Prop extends Becomes i w w' (w.connection i) where
  ends : EndsAsClosed i w w'

theorem Spares.of_eq (hlength : w.connections.length ≤ w'.connections.length)
    (h : w'.connection i = w.connection i) : Spares i w w' where
  mail := h ▸ .refl _
  length := hlength
  ends hw := h.symm ▸ hw

theorem Spares.refl (w : World ε) : Spares i w w := .of_eq (Nat.le_refl _) rfl

/-- Whoever runs errands at a connection; it is used for everything else, too. -/
def errandRules (ε : Type) (i : Nat) : Rules (World ε) Errand (Option Outcome) where
  program := Errand.program i
  Serves p := Serves i p ∨ Keeps (Spares i) p
  Outside := Spares i

/-- One who is over has no place in line. -/
def NoTurn (_ : Errand) (st : Stage) (_ : Option Outcome) : Prop := st.turn? = none

theorem obeys_errandRules (ε : Type) (i : Nat) :
    (errandRules ε i).Obeys (discipline ε i) (fun x => Stage.first x.uri?) NoTurn where
  program x := by
    cases x with
    | document x => exact (follows_program x).bind fun _ _ hst => hst
    | request method params token timeout =>
      exact parts_follow.request.bind fun st _ hst => by
        subst hst
        exact rfl
  serves p hp := by
    rcases hp with hp | hp
    · exact (obeys_rules ε i).serves p hp
    · have hneutral : Keeps (discipline ε i).Neutral p :=
        hp.mono fun _ _ h _ _ => Acts.aside h.toBecomes
      exact hneutral.follows.mono fun st _ hst => ⟨hst, fun _ => hst⟩
  outside w w' _ h := .aside h.toBecomes

theorem keep_errandRules (ε : Type) (i : Nat) : (errandRules ε i).Keep (EndsAsClosed i) where
  refl _ h := h
  program x := by
    cases x with
    | document x => exact Keeps.bind endsAsClosed_documents.program fun _ => Keeps.pure _
    | request => exact Keeps.bind endsAsClosed_parts.request fun _ => Keeps.pure _
  serves p hp := hp.elim endsAsClosed_serves fun hp => hp.mono fun _ _ h => h.ends
  outside _ _ h := h.ends

theorem endsAsClosed_along {c c' : Crew (World ε) Errand (Option Outcome)}
    (hkeeps : AllKeep (EndsAsClosed i) c)
    (hends : (c.state.connection i).calls.EndsClosed)
    (run : Run (errandRules ε i) c moments c') : AllKeep (EndsAsClosed i) c' ∧
      (c'.state.connection i).calls.EndsClosed ∧
      ∀ m ∈ moments, (m.before.connection i).calls.EndsClosed := by
  obtain ⟨hmoments, hkeeps'⟩ := run.keeps (keep_errandRules ε i) hkeeps
  obtain ⟨hstate, hbefore⟩ := run.chain (G := EndsAsClosed i) (fun _ h => h)
    (fun _ _ _ h h' hw => h' (h hw)) hmoments
  exact ⟨hkeeps', hstate hends, fun m hm => (hbefore m hm).1 hends⟩

end LspClient.Document
