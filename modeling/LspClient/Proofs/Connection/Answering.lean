import LspClient.Proofs.Connection.Obeying
import LspClient.Proofs.Document.Notes
import LspClient.Proofs.Program.Traces
import LspClient.Proofs.Workspace.Handling
import LspClient.Proofs.Write.Heeding

/-!
# How requests of the server are answered

What a server asks is answered by a service of its own. It touches nothing of its connection but the
outbox; there it puts one reply, under the id of what was asked, unless the outbox is closed
(`Answered`). It is never stuck unless the outbox is full (`answer_goes_on`).
-/

namespace LspClient

open Program

namespace Connection

variable {ε α : Type} {i : Nat} {w w' : World ε}

theorem setConnection_self (w : World ε) (i : Nat) : w.setConnection i (w.connection i) = w := by
  unfold World.setConnection World.connection
  rcases Nat.lt_or_ge i w.connections.length with hi | hi
  · rw [List.getElem?_eq_getElem hi, Option.getD_some, List.set_getElem_self]
  · rw [List.set_eq_of_length_le hi]

/-- The step leaves everything alone but the outbox of the connection, work in the background, and
the files. -/
def Beside (i : Nat) (w w' : World ε) : Prop :=
  ∃ outbox, w' = { w with
    connections := w.connections.set i { w.connection i with outbox }
    files := w'.files, jobs := w'.jobs, nextNumber := w'.nextNumber }

/-- The commands that a step puts into the outbox. -/
def queuedBy (i : Nat) (m : World ε × World ε) : List Command :=
  (m.2.connection i).outbox.queue.drop (m.1.connection i).outbox.queue.length

/-- The frame is the response to a request of the server. -/
structure RepliesTo (id reply : Json) : Prop where
  id : reply.get? "id" = some id
  noMethod : reply.get? "method" = none

/-- One reply at most. -/
inductive Reply (id : Json) : List Command → Prop
  | none : Reply id []
  | one {reply : Json} (h : RepliesTo id reply) : Reply id [.send reply none]

/-- What the service has done that answers a request of the server. -/
structure Answered (i : Nat) (r : ServerRequest) (steps : List (World ε × World ε))
    (q : Work ε Bool) : Prop where
  beside : ∀ m ∈ steps, Beside i m.1 m.2
  files : r.method ≠ Workspace.editMethod → ∀ m ∈ steps, m.2.files = m.1.files
  queue : ∀ m ∈ steps, (m.1.connection i).outbox.queue <+: (m.2.connection i).outbox.queue
  reply : Reply r.id (steps.flatMap (queuedBy i))
  ends : ∀ again, q.result? = some again → again = false ∧
    (steps.flatMap (queuedBy i) ≠ [] ∨ ∃ m ∈ steps, (m.1.connection i).outbox.closed = true)

/-- How far one is with an answer. -/
inductive AnswerStage where
  | owed
  | replied
  | refused

/-- What a step of an answer is. -/
inductive Replies (i : Nat) (r : ServerRequest) (w w' : World ε) : AnswerStage → AnswerStage → Prop
  | still {g : AnswerStage} (h : (w'.connection i).outbox.queue = (w.connection i).outbox.queue) :
      Replies i r w w' g g
  | reply {reply : Json} (hreply : RepliesTo r.id reply)
      (h : (w'.connection i).outbox.queue =
        (w.connection i).outbox.queue ++ [.send reply none]) : Replies i r w w' .owed .replied
  | refuse (hclosed : (w.connection i).outbox.closed = true)
      (h : (w'.connection i).outbox.queue = (w.connection i).outbox.queue) :
      Replies i r w w' .owed .refused

structure AnswerStep (i : Nat) (r : ServerRequest) (g : AnswerStage) (w w' : World ε)
    (g' : AnswerStage) : Prop where
  beside : Beside i w w'
  files : r.method ≠ Workspace.editMethod → w'.files = w.files
  replies : Replies i r w w' g g'

/-- A step that leaves all connections alone. -/
theorem beside_of_connections_eq (h : w' = { w with
    files := w'.files, jobs := w'.jobs, nextNumber := w'.nextNumber }) : Beside i w w' := by
  have hself : w.connections.set i (w.connection i) = w.connections :=
    congrArg World.connections (setConnection_self w i)
  refine ⟨(w.connection i).outbox, ?_⟩
  rw [hself]
  exact h

theorem Beside.refl (w : World ε) : Beside i w w := beside_of_connections_eq rfl

theorem Beside.length (h : Beside i w w') : w'.connections.length = w.connections.length := by
  obtain ⟨outbox, heq⟩ := h
  rw [heq]
  exact List.length_set

def answering (ε : Type) (i : Nat) (r : ServerRequest) : Discipline (World ε) AnswerStage where
  Inv w := i < w.connections.length
  Acts := AnswerStep i r
  idle := .owed
  inv_of_acts h hacts := hacts.beside.length ▸ h
  acts_self _ := ⟨.refl _, fun _ => rfl, .still rfl⟩

variable {r : ServerRequest} {g : AnswerStage}

/-- A step on the outbox of the connection. -/
theorem answerStep_setOutbox {outbox : Outbox} {g' : AnswerStage} (h : Replies i r w
      (w.setConnection i { w.connection i with outbox }) g g') :
    AnswerStep i r g w (w.setConnection i { w.connection i with outbox }) g' :=
  ⟨⟨outbox, rfl⟩, fun _ => rfl, h⟩

theorem follows_onOutbox {f : Outbox → α × Outbox} (hf : ∀ o, (f o).2.queue = o.queue) :
    Follows (answering ε i r) (Work.onConnection i fun c =>
      ((f c.outbox).1, { c with outbox := (f c.outbox).2 })) g fun g' _ => g' = g :=
  Follows.act fun w hi => by
    refine ⟨g, answerStep_setOutbox (.still ?_), rfl⟩
    rw [World.connection_setConnection hi]
    exact hf _

theorem repliesTo_ofResult (id result : Json) : RepliesTo id (Message.ofResult id result) :=
  ⟨Message.id_ofResult id result, Message.method_ofResult id result⟩

theorem repliesTo_ofError (id : Json) (e : ResponseError) :
    RepliesTo id (Message.ofError id e) :=
  ⟨Message.id_ofError id e, Message.method_ofError id e⟩

/-- To queue a reply, without a limit. -/
theorem follows_enqueueReply {ticket : Nat} {reply : Json} (hreply : RepliesTo r.id reply) :
    Follows (answering ε i r) (enqueue i ticket (.send reply none) Limit.never) .owed
      fun g' _ => g' ≠ .owed := by
  have hwait : Follows (answering ε i r)
      (Work.within Limit.never (stepOn i fun c => c.takeIn ticket (.send reply none))) .owed
      fun g' o => g' ≠ .owed ∧ ∃ outcome, o = .ok outcome := by
    -- the limit never ends the wait, so all that can happen is that the queue answers
    refine Follows.await fun w o w' hi hs => ?_
    simp only [World.isCancelled, Limit.never, Token.never, List.any_nil, Bool.false_eq_true,
      ↓reduceIte, Limit.expired?, Option.bind_none, Option.map_none] at hs
    split at hs
    · next a w₁ ha =>
      cases hs
      obtain ⟨⟨outcome, c⟩, hc, heq⟩ := Option.map_eq_some_iff.1 ha
      cases heq
      simp only [takeIn] at hc
      split at hc
      · next hclosed =>
        cases hc
        refine ⟨.refused, answerStep_setOutbox (.refuse hclosed ?_), by simp, _, rfl⟩
        rw [World.connection_setConnection hi]
        rfl
      · obtain ⟨outbox, hout, heq⟩ := Option.map_eq_some_iff.1 hc
        cases heq
        refine ⟨.replied, answerStep_setOutbox (.reply hreply ?_), by simp, _, rfl⟩
        rw [World.connection_setConnection hi]
        unfold Outbox.takeIn at hout
        split at hout
        · cases hout
        · cases hout
          rfl
    · cases hs
  refine hwait.bind fun g' o ho => ?_
  obtain ⟨hg', outcome, rfl⟩ := ho
  exact hg'

theorem follows_handle {settings : Option Json} :
    Follows (answering ε i r) (Workspace.handle settings r.method r.params) .owed
      fun g' _ => g' = .owed := by
  refine Keeps.follows (Workspace.handle_of_parts Keeps.pure fun hmethod =>
    Workspace.editParts_keeps (answering ε i r).neutral_self (fun w => ?_) fun w t => ?_)
  · exact fun _ g => ⟨beside_of_connections_eq rfl, fun _ => rfl, .still rfl⟩
  · exact fun _ g => ⟨beside_of_connections_eq rfl, fun hne => absurd hmethod hne, .still rfl⟩

theorem follows_answer_reply :
    Follows (answering ε i r) (answer i r) .owed fun g' _ => g' ≠ .owed := by
  have hlook : Follows (answering ε i r) (Work.connection i) .owed fun g' _ => g' = .owed :=
    (Keeps.look (answering ε i r).neutral_self).follows
  refine hlook.bind fun g c hg => ?_
  subst hg
  refine follows_handle.bind fun g outcome hg => ?_
  subst hg
  have hjoin : Follows (answering ε i r) (Work.onConnection i join) .owed fun g' _ => g' = .owed :=
    follows_onOutbox (f := Outbox.join) fun o => rfl
  have hreply {reply : Json} (h : RepliesTo r.id reply) : Follows (answering ε i r) (do
      let ticket ← Work.onConnection i join
      let _ ← enqueue i ticket (.send reply none) Limit.never) .owed fun g' _ => g' ≠ .owed := by
    refine hjoin.bind fun g ticket hg => ?_
    subst hg
    exact (follows_enqueueReply h).bind fun g' _ hg' => hg'
  cases outcome with
  | ok result => exact hreply (repliesTo_ofResult r.id result)
  | error e => exact hreply (repliesTo_ofError r.id e)

/-- What the steps of an answer come to, from stage to stage. -/
theorem replies_of_passes {steps : List (World ε × World ε)}
    (h : Passes (answering ε i r) .owed steps g) :
    (∀ m ∈ steps, Beside i m.1 m.2 ∧ (r.method ≠ Workspace.editMethod → m.2.files = m.1.files) ∧
      (m.1.connection i).outbox.queue <+: (m.2.connection i).outbox.queue) ∧
    Reply r.id (steps.flatMap (queuedBy i)) ∧
    (steps.flatMap (queuedBy i) = [] ↔ g ≠ .replied) ∧
    (g = .refused → ∃ m ∈ steps, (m.1.connection i).outbox.closed = true) := by
  induction h with
  | nil => exact ⟨nofun, .none, by simp, nofun⟩
  | @snoc steps g₁ g₂ w w' _ hs ih =>
    obtain ⟨hsteps, hreply, hnone, hclosed⟩ := ih
    have hone : queuedBy i (w, w') = ((w'.connection i).outbox.queue).drop
      (w.connection i).outbox.queue.length := rfl
    rw [List.flatMap_append, List.flatMap_singleton, hone]
    have hmem (hgrows : (w.connection i).outbox.queue <+: (w'.connection i).outbox.queue) :
        ∀ m ∈ steps ++ [(w, w')], Beside i m.1 m.2 ∧
          (r.method ≠ Workspace.editMethod → m.2.files = m.1.files) ∧
          (m.1.connection i).outbox.queue <+: (m.2.connection i).outbox.queue := by
      intro m hm
      rcases List.mem_append.1 hm with hm | hm
      · exact hsteps m hm
      · obtain rfl := List.mem_singleton.1 hm
        exact ⟨hs.beside, hs.files, hgrows⟩
    have hearlier (h : ∃ m ∈ steps, (m.1.connection i).outbox.closed = true) :
        ∃ m ∈ steps ++ [(w, w')], (m.1.connection i).outbox.closed = true := by
      obtain ⟨m, hm, hclosed⟩ := h
      exact ⟨m, List.mem_append_left _ hm, hclosed⟩
    -- a step leaves the queue as it is, queues the reply that is owed, or finds the queue closed
    cases hs.replies with
    | still hqueue =>
      rw [hqueue, List.drop_length, List.append_nil]
      exact ⟨hmem (hqueue ▸ List.prefix_rfl), hreply, hnone, fun hg => hearlier (hclosed hg)⟩
    | reply hto hqueue =>
      rw [hqueue, List.drop_left, hnone.2 nofun]
      exact ⟨hmem (hqueue ▸ List.prefix_append _ _), .one hto, by simp, nofun⟩
    | refuse hshut hqueue =>
      rw [hqueue, List.drop_length, List.append_nil]
      exact ⟨hmem (hqueue ▸ List.prefix_rfl), hreply, by simp [hnone],
        fun _ => ⟨(w, w'), by simp, hshut⟩⟩

/-- Whatever happens in between, a request is answered by one reply, unless the connection is
closed. -/
theorem answered_of_traces {R : World ε → World ε → Prop} {steps : List (World ε × World ε)}
    {started : List (Work ε Bool)} {q : Work ε Bool} (hi : i < w.connections.length)
    (hR : ∀ w w', R w w' → w.connections.length ≤ w'.connections.length)
    (h : (once (answer i r)).Traces R w steps started q w') : Answered i r steps q := by
  have hinv (w w' : World ε) (hinv : (answering ε i r).Inv w) (hs : R w w') :
      (answering ε i r).Inv w' := Nat.lt_of_lt_of_le hinv (hR w w' hs)
  have honce : Follows (answering ε i r) (once (answer i r)) .owed
      fun g again => g ≠ .owed ∧ again = false :=
    follows_answer_reply.bind fun g _ hg => ⟨hg, rfl⟩
  obtain ⟨g, hpasses, hq, -⟩ := Follows.traces (fun _ _ _ _ h => h) hinv honce hi h
  obtain ⟨hsteps, hreply, hnone, hclosed⟩ := replies_of_passes hpasses
  refine ⟨fun m hm => (hsteps m hm).1, fun hmethod m hm => (hsteps m hm).2.1 hmethod,
    fun m hm => (hsteps m hm).2.2, hreply, fun again hover => ?_⟩
  rw [eq_done_of_result? hover] at hq
  refine ⟨hq.2, ?_⟩
  cases g with
  | owed => exact absurd rfl hq.1
  | replied => exact .inl fun h => hnone.1 h rfl
  | refused => exact .inr (hclosed rfl)

/-! ### No answer is stuck -/

/-- Somebody stands in line for the outbox. -/
inductive AwaitsRoom (i : Nat) : {β : Type} → Work ε β → Prop
  | intro (ticket : Nat) (command : Command) : AwaitsRoom i
      (Work.within Limit.never (stepOn i fun c => c.takeIn ticket command))

/-- An answer goes on by itself, but for room in the outbox. -/
def unhurried (ε : Type) (i : Nat) : Terms (World ε) where
  Goes := World.Goes
  Stopped _ := True
  Lets := World.Lets
  Excuses q := AwaitsRoom i q
  goes_refl := .refl
  goes_trans := .trans
  lets_refl _ := .nothing

theorem heedful_answer : (answer i r : Work ε Unit).Heedful (unhurried ε i) := by
  have hparts : Workspace.EditParts fun p : Work ε _ => p.Heedful (unhurried ε i) :=
    Work.heedful_editParts (fun _ _ => .rfl) fun _ _ h => h
  have hset {α : Type} {f : Connection → α × Connection} :
      (Work.onConnection i f : Work ε α).Heedful (unhurried ε i) :=
    .act fun w => World.goes_setConnection w i _
  have hwait (ticket : Nat) (command : Command) : (Work.within Limit.never
      (stepOn i fun c => c.takeIn ticket command) : Work ε _).Heedful (unhurried ε i) :=
    .excused (Work.goes_of_within Work.goes_of_stepOn) (.intro ticket command)
  refine .bind .look fun c => .bind (Workspace.handle_of_parts .pure fun _ => hparts) fun o => ?_
  refine .bind hset fun ticket => .bind (.bind (hwait ticket _) fun r => ?_) fun _ => .pure _
  match r with
  | .ok outcome => exact .pure _
  | .error e => exact .bind (.act fun w => World.goes_setConnection w i _) fun _ => .pure _

/-- The outbox is open, but there is no room in it for somebody who stands in line. -/
def Full (i : Nat) (w : World ε) : Prop :=
  (w.connection i).outbox.closed = false ∧ ∃ ticket : Nat,
    (w.connection i).outbox.hasRoom ((w.connection i).outbox.line.idxOf ticket) = false

theorem full_of_awaitsRoom {β : Type} {q : Work ε β} (h : AwaitsRoom i q)
    (hlasts : q.canMove w = false) : Full i w := by
  obtain ⟨ticket, command⟩ := h
  have hnone := eq_none_of_canMove hlasts
  unfold takeIn Outbox.takeIn at hnone
  split at hnone
  · cases hnone
  · next hopen =>
    have hopen : (w.connection i).outbox.closed = false := by simpa using hopen
    exact ⟨hopen, ticket, by simpa [hopen] using hnone⟩

/-- An answer that is not over can go on, at the latest when work in the background has ended,
unless the outbox is full. -/
theorem answer_goes_on {q : Work ε Bool} (h : Reaches World.Goes (once (answer i r)) w q w')
    (hgoing : q.result? = none) : (∃ w'', w'.Lets w'' ∧ q.canMove w'' = true) ∨ Full i w' := by
  have honce : (once (answer i r)).Heedful (unhurried ε i) := heedful_answer.bind fun _ => .pure _
  rcases ((honce w).reaches h).goes_on trivial hgoing with hgo | ⟨β, q', hexcused, hlasts, -⟩
  · exact .inl hgo
  · exact .inr (full_of_awaitsRoom hexcused hlasts)

theorem startsNone_answer : (once (answer i r) : Work ε Bool).StartsNone := by
  have hparts : Workspace.EditParts fun p : Work ε _ => p.StartsNone :=
    ⟨.pure, .bind, fun _ => .bind .await fun _ => .await,
      fun _ _ => .bind .await fun _ => .await⟩
  refine .bind (.bind .await fun c => ?_) fun _ => .pure _
  refine .bind (Workspace.handle_of_parts .pure fun _ => hparts) fun outcome => ?_
  refine .bind .await fun ticket => .bind (.bind .await fun r => ?_) fun _ => .pure _
  match r with
  | .ok outcome => exact .pure _
  | .error e => exact .bind .await fun _ => .pure _

end Connection

end LspClient
