import LspClient.Proofs.Connection.Correlation
import LspClient.Proofs.Connection.Parts

/-!
# Sending, and giving up

What the programs of a connection do to its outbox. One who has something to send stands in line
with a ticket, and either has its command queued or leaves the line without. A caller moreover goes
through the phases of its call: it gets a number, queues its request or withdraws from the line,
takes the call back if it is registered still when it is given up, and then, at most once, offers
the cancellation. Nobody else queues a cancellation.

`Sends` lists what one may do at each phase, and `sending` is the discipline of it.
-/

namespace LspClient

open Program

namespace Command

/-- The command has the server asked under a number. -/
def AsksAs (cmd : Command) (id : Nat) : Prop :=
  ∃ frame ticket j method params, cmd = .send frame ticket ∧
    Message.classify frame = some (.request j method params) ∧ j.nat? = some id

/-- The command has the server give up what it was asked under a number. -/
def Cancels (cmd : Command) (id : Nat) : Prop :=
  ∃ frame ticket params, cmd = .send frame ticket ∧
    Message.classify frame = some (.notification Method.cancelRequest (some params)) ∧
    (params.get? "id").bind Json.nat? = some id

variable {id id' : Nat} {frame j : Json} {ticket : Option Nat}

theorem asksAs_ofRequest (id : Nat) (method : String) (params : Option Json)
    (ticket : Option Nat) : (send (Message.ofRequest id method params) ticket).AsksAs id :=
  ⟨_, _, _, _, _, rfl, Message.classify_ofRequest id method params, Json.nat?_nat id⟩

theorem eq_of_cancels_ofNotification
    (h : (send (Message.ofNotification Method.cancelRequest (some (Params.cancel id)))
      ticket).Cancels id') : id' = id := by
  obtain ⟨frame, t, params, heq, hclass, hid⟩ := h
  cases heq
  rw [Message.classify_ofNotification] at hclass
  cases hclass
  rw [Params.cancel, Json.get?_object] at hid
  exact Option.some.inj (hid.symm.trans (Json.nat?_nat id))

/-- A frame with an identifier is no cancellation. -/
theorem not_cancels_of_id (h : frame.get? "id" = some j) : ¬ (send frame ticket).Cancels id := by
  rintro ⟨frame, t, params, heq, hclass, -⟩
  cases heq
  exact Message.classify_ne_notification h _ _ hclass

theorem not_cancels_ofRequest {method : String} {params : Option Json} :
    ¬ (send (Message.ofRequest id' method params) ticket).Cancels id := by
  rintro ⟨frame, t, params, heq, hclass, -⟩
  cases heq
  rw [Message.classify_ofRequest] at hclass
  cases hclass

theorem not_cancels_ofNotification {method : String} {params : Option Json}
    (h : method ≠ Method.cancelRequest) :
    ¬ (send (Message.ofNotification method params) ticket).Cancels id := by
  rintro ⟨frame, t, params, heq, hclass, -⟩
  cases heq
  rw [Message.classify_ofNotification] at hclass
  cases hclass
  exact h rfl

theorem not_cancels_shutdown : ¬ shutdown.Cancels id := by
  rintro ⟨frame, t, params, heq, -⟩
  cases heq

end Command

namespace Outbox

/-- Nothing is queued, and everybody keeps the place in the line. -/
structure Spares (o o' : Outbox) : Prop where
  line : o'.line = o.line
  nextTicket : o'.nextTicket = o.nextTicket
  queue : o'.queue.length ≤ o.queue.length

theorem Spares.refl (o : Outbox) : Spares o o := ⟨rfl, rfl, Nat.le_refl _⟩

theorem Spares.of_eq {o o' : Outbox} (h : o' = o) : Spares o o' := h ▸ .refl o

theorem Spares.trans {o o' o'' : Outbox} (h : Spares o o') (h' : Spares o' o'') : Spares o o'' :=
  ⟨h'.line.trans h.line, h'.nextTicket.trans h.nextTicket, Nat.le_trans h'.queue h.queue⟩

/-- The commands that were queued from one to the other, if there are any. -/
def added (o o' : Outbox) : List Command := o'.queue.drop o.queue.length

theorem Spares.added {o o' : Outbox} (h : Spares o o') : added o o' = [] :=
  List.drop_eq_nil_of_le h.queue

theorem eq_of_takeIn {o o' : Outbox} {t : Nat} {cmd : Command} (h : o.takeIn t cmd = some o') :
    o' = { o with line := o.line.filter (· ≠ t), queue := o.queue ++ [cmd] } := by
  unfold takeIn at h
  split at h
  · cases h
  · exact (Option.some.inj h).symm

theorem added_takeIn {o o' : Outbox} {t : Nat} {cmd : Command} (h : o.takeIn t cmd = some o') :
    added o o' = [cmd] := by
  rw [eq_of_takeIn h]
  exact List.drop_left

theorem added_offer (o : Outbox) (cmd : Command) :
    added o (o.offer cmd) = [] ∨ added o (o.offer cmd) = [cmd] := by
  unfold offer
  split
  · exact .inl (Spares.refl o).added
  · exact .inr List.drop_left

theorem spares_report (o : Outbox) (ticket : Option Nat) (d : Delivery) :
    Spares o (o.report ticket d) := by
  cases ticket <;> exact ⟨rfl, rfl, Nat.le_refl _⟩

theorem spares_collect {o o' : Outbox} {ticket : Nat} {d : Delivery}
    (h : o.collect ticket = some (d, o')) : Spares o o' := by
  obtain ⟨d', -, heq⟩ := Option.map_eq_some_iff.1 h
  cases heq
  exact ⟨rfl, rfl, Nat.le_refl _⟩

theorem spares_next {o o' : Outbox} {cmd : Command} (h : o.next? = some (cmd, o')) :
    Spares o o' := by
  unfold next? at h
  split at h
  · cases h
  · next heq =>
    cases h
    exact ⟨rfl, rfl, by simp [heq]⟩

theorem spares_foldl {step : Outbox → Command → Outbox} (hstep : ∀ o cmd, Spares o (step o cmd))
    (o : Outbox) (cmds : List Command) : Spares o (cmds.foldl step o) := by
  induction cmds generalizing o with
  | nil => exact .refl o
  | cons cmd cmds ih => exact (hstep o cmd).trans (ih _)

theorem spares_close (o : Outbox) : Spares o o.close := by
  unfold close
  refine Spares.trans (spares_foldl (fun o cmd => ?_) o o.queue) ⟨rfl, rfl, Nat.zero_le _⟩
  cases cmd with
  | send frame ticket => exact spares_report o ticket .dropped
  | shutdown => exact .refl o

end Outbox

namespace Connection

variable {ε α β : Type} {i : Nat}

/-- How far one has come with a call of its own. -/
inductive Phase where
  | idle
  | numbered (id : Nat)
  /-- The request is queued. -/
  | asked (id : Nat)
  /-- The caller has left the line, and its request was not queued. -/
  | withdrawn (id : Nat)
  /-- The caller has taken the call out of the table of registered calls. -/
  | takenBack (id : Nat)
  | cancelled (id : Nat)

/-- The caller has left the line, with its request queued or without. -/
def Phase.HasLeft (p : Phase) (id : Nat) : Prop := p = .asked id ∨ p = .withdrawn id

/-- Where one stands with a ticket. -/
inductive Place where
  | away
  | inLine (ticket : Nat)
  /-- The command was queued. -/
  | through (ticket : Nat)

def Place.ticket? : Place → Option Nat
  | .away => none
  | .inLine t | .through t => some t

structure Sender where
  call : Phase
  place : Place

def Sender.idle : Sender := ⟨.idle, .away⟩

/-- What one may do to a connection. -/
inductive Sends : Sender → Connection → Connection → Sender → Prop
  | rest {g : Sender} {c c' : Connection} (h : c.outbox.Spares c'.outbox) : Sends g c c' g
  | number {g : Sender} {c c' : Connection} (h : g.call = .idle)
      (hcalls : c'.calls = c.calls.number.2) (houtbox : c'.outbox = c.outbox) :
      Sends g c c' { g with call := .numbered c.calls.nextId }
  | join {g : Sender} {c : Connection} :
      Sends g c c.join.2 { g with place := .inLine c.outbox.nextTicket }
  | queue {g : Sender} {c : Connection} {t : Nat} {cmd : Command} {outbox : Outbox}
      (h : g.place = .inLine t) (houtbox : c.outbox.takeIn t cmd = some outbox)
      (hcmd : ∀ id, ¬ cmd.Cancels id) :
      Sends g c { c with outbox } { g with place := .through t }
  | ask {c : Connection} {id t : Nat} {cmd : Command} {outbox : Outbox}
      (houtbox : c.outbox.takeIn t cmd = some outbox) (hcmd : ∀ id, ¬ cmd.Cancels id)
      (hasks : cmd.AsksAs id) :
      Sends ⟨.numbered id, .inLine t⟩ c { c with outbox } ⟨.asked id, .through t⟩
  | leave {g : Sender} {c : Connection} {t : Nat} (h : g.place.ticket? = some t) :
      Sends g c (leave t c) { g with place := .away }
  | withdraw {c : Connection} {id t : Nat} :
      Sends ⟨.numbered id, .inLine t⟩ c (Connection.leave t c) ⟨.withdrawn id, .away⟩
  | takeBack {g : Sender} {c : Connection} {id : Nat} (h : g.call.HasLeft id)
      (hpending : c.calls.pending.get? id ≠ none) :
      Sends g c (abandon id c).2 { g with call := .takenBack id }
  | cancel {g : Sender} {c : Connection} {id : Nat} (h : g.call = .takenBack id) :
      Sends g c (offerCancel id c) { g with call := .cancelled id }

def sending (ε : Type) (i : Nat) : Discipline (World ε) Sender :=
  disciplineOn ε i Sends .idle fun _ (c : Connection) => .rest (.refl c.outbox)

theorem neutral_of_aside {w w' : World ε} (h : Aside i w w') : (sending ε i).Neutral w w' :=
  fun hinv _ => ⟨h.length ▸ hinv, .rest (.of_eq h.apart.mail.outbox)⟩

/-- Programs that are made of steps aside may be run by anybody. -/
theorem neutral_parts : AsideParts (ε := ε) i fun p => Keeps (sending ε i).Neutral p :=
  asideParts_keeps fun _ _ => neutral_of_aside

/-- The program leaves the call of the one who runs it at its phase. -/
def KeepsPhase (i : Nat) (g : Sender) (p : Work ε α) : Prop :=
  Follows (sending ε i) p g fun g' _ => g'.call = g.call

section

variable {g : Sender} {id t : Nat} {cmd : Command} {limit : Limit}

theorem keepsPhase_pure (a : α) : KeepsPhase i g (Pure.pure a : Work ε α) := rfl

/-- Steps that anybody may take come first. -/
theorem follows_then {p : Work ε α} {k : α → Work ε β} {Q : Sender → β → Prop}
    (hp : Keeps (sending ε i).Neutral p) (hk : ∀ a, Follows (sending ε i) (k a) g Q) :
    Follows (sending ε i) (p >>= k) g Q :=
  hp.follows.bind fun _ a hg => hg ▸ hk a

theorem keepsPhase_of_neutral {p : Work ε α} (hp : Keeps (sending ε i).Neutral p) :
    KeepsPhase i g p :=
  hp.follows.mono fun _ _ hg => congrArg Sender.call hg

theorem neutral_setConnection {w : World ε} {c : Connection}
    (h : (w.connection i).outbox.Spares c.outbox) :
    (sending ε i).Neutral w (w.setConnection i c) := by
  refine fun hinv g => ⟨?_, ?_⟩
  · rw [World.length_setConnection]
    exact hinv
  · rw [World.connection_setConnection hinv]
    exact .rest h

/-! ### The line -/

theorem sends_join : Follows (sending ε i) (Work.onConnection i join) g fun g' t =>
    g' = { g with place := .inLine t } :=
  follows_actOn fun _ => ⟨_, .join, rfl⟩

/-- What becomes of one who stands in line: the command is queued, or the outbox is closed. -/
theorem takeIn_cases {c c' : Connection} {r : Except Failure Unit}
    (h : c.takeIn t cmd = some (r, c')) :
    (∃ outbox, c.outbox.takeIn t cmd = some outbox ∧ r = .ok () ∧ c' = { c with outbox }) ∨
      ((∃ e, r = .error e) ∧ c' = leave t c) := by
  unfold takeIn at h
  split at h
  · cases h
    exact .inr ⟨⟨_, rfl⟩, rfl⟩
  · obtain ⟨outbox, ho, heq⟩ := Option.map_eq_some_iff.1 h
    cases heq
    exact .inl ⟨outbox, ho, rfl, rfl⟩

theorem sends_enqueue {g₁ g₂ : Sender}
    (hqueue : ∀ (c : Connection) (outbox : Outbox), c.outbox.takeIn t cmd = some outbox →
      Sends g c { c with outbox } g₁)
    (hleave : ∀ c, Sends g c (leave t c) g₂) :
    Follows (sending ε i) (enqueue i t cmd limit) g fun g' r =>
      (r = .ok () ∧ g' = g₁) ∨ ((∃ e, r = .error e) ∧ g' = g₂) := by
  have hwait : Follows (sending ε i) (Work.within limit (stepOn i fun c => c.takeIn t cmd)) g
      fun g' r => (r = .ok (.ok ()) ∧ g' = g₁) ∨ (∃ e, r = .ok (.error e) ∧ g' = g₂) ∨
        ∃ e, r = .error e ∧ g' = g := by
    refine follows_withinOn (fun c r c' hs => ?_)
      ⟨g, fun c => .rest (.refl c.outbox), fun e => .inr (.inr ⟨e, rfl, rfl⟩)⟩
    rcases takeIn_cases hs with ⟨outbox, ho, rfl, rfl⟩ | ⟨⟨e, rfl⟩, rfl⟩
    · exact ⟨g₁, hqueue c outbox ho, .inl ⟨rfl, rfl⟩⟩
    · exact ⟨g₂, hleave c, .inr (.inl ⟨e, rfl, rfl⟩)⟩
  refine hwait.bind fun g' r hr => ?_
  rcases hr with ⟨rfl, rfl⟩ | ⟨e, rfl, rfl⟩ | ⟨e, rfl, rfl⟩
  · exact .inl ⟨rfl, rfl⟩
  · exact .inr ⟨⟨e, rfl⟩, rfl⟩
  · have hwithdraw : Follows (sending ε i) (update (World.onConnection i (leave t)) : Work ε Unit)
        g' fun g'' _ => g'' = g₂ := by
      change Follows (sending ε i) (Work.onConnection i fun c => ((), leave t c)) g' _
      exact follows_actOn fun c => ⟨g₂, hleave c, rfl⟩
    exact hwithdraw.bind fun _ _ h => .inr ⟨⟨e, rfl⟩, h⟩

/-- To wait for the report on a command that was queued. -/
theorem keepsPhase_report (hg : g.place = .through t) : KeepsPhase i g (do
    match ← Work.within limit (stepOn i fun c => c.delivered t) with
    | .ok outcome => return outcome
    | .error e =>
      update (World.onConnection i (leave t))
      return .error e : Work ε (Except Failure Unit)) := by
  have hwait : Keeps (sending ε i).Neutral
      (Work.within limit (stepOn i fun c => c.delivered t) : Work ε _) := by
    refine keeps_within (sending ε i).neutral_self fun w r w' hs => ?_
    obtain ⟨⟨r', c'⟩, hc', heq⟩ := Option.map_eq_some_iff.1 hs
    obtain ⟨⟨d, o⟩, ho, heq'⟩ := Option.map_eq_some_iff.1 hc'
    cases heq
    cases heq'
    exact neutral_setConnection (Outbox.spares_collect ho)
  refine follows_then hwait fun r => ?_
  match r with
  | .ok outcome => exact keepsPhase_pure _
  | .error e =>
    have hleave : KeepsPhase i g (update (World.onConnection i (leave t)) : Work ε Unit) := by
      change KeepsPhase i g (Work.onConnection i fun c => ((), leave t c))
      exact follows_actOn fun _ => ⟨_, .leave (by rw [hg]; rfl), rfl⟩
    exact Follows.bind hleave fun _ _ h => h

/-- One who sends ends as one whose command was queued, or who has left the line. -/
theorem sends_send {frame : Json} {p₁ p₂ : Phase}
    (hqueue : ∀ (t : Nat) (c : Connection) (outbox : Outbox),
      c.outbox.takeIn t (.send frame (some t)) = some outbox →
      Sends { g with place := .inLine t } c { c with outbox } ⟨p₁, .through t⟩)
    (hleave : ∀ t c, Sends { g with place := .inLine t } c (leave t c) ⟨p₂, .away⟩) :
    Follows (sending ε i) (send i frame limit) g fun g' _ => g'.call = p₁ ∨ g'.call = p₂ := by
  refine Follows.bind sends_join fun g' t hg' => ?_
  subst hg'
  refine (sends_enqueue (hqueue t) (hleave t)).bind fun g' r hr => ?_
  rcases hr with ⟨rfl, rfl⟩ | ⟨⟨e, rfl⟩, rfl⟩
  · exact (keepsPhase_report rfl).mono fun _ _ h => .inl h
  · exact .inr rfl

theorem keepsPhase_send {frame : Json}
    (hframe : ∀ ticket id, ¬ (Command.send frame ticket).Cancels id) :
    KeepsPhase i g (send i frame limit : Work ε _) :=
  (sends_send (fun t _ _ ho => .queue rfl ho (hframe (some t))) fun _ _ => .leave rfl).mono
    fun _ _ h => h.elim id id

theorem keepsPhase_enqueue (hcmd : ∀ id, ¬ cmd.Cancels id) : KeepsPhase i g (do
    let ticket ← Work.onConnection i join
    let _ ← enqueue i ticket cmd limit
    return () : Work ε Unit) := by
  refine Follows.bind sends_join fun g' t hg' => ?_
  subst hg'
  refine (sends_enqueue (fun _ _ ho => .queue rfl ho hcmd) fun _ => .leave rfl).bind
    fun g' r hr => ?_
  rcases hr with ⟨-, rfl⟩ | ⟨-, rfl⟩ <;> rfl

/-! ### Requests -/

theorem sends_exchange {method : String} {params : Option Json} (hg : g.call = .numbered id) :
    Follows (sending ε i) (exchange i id (Message.ofRequest id method params) limit) g
      fun g' _ => g'.call.HasLeft id := by
  obtain ⟨call, place⟩ := g
  cases hg
  have hsend : Follows (sending ε i) (send i (Message.ofRequest id method params) limit)
      ⟨.numbered id, place⟩ fun g' _ => g'.call.HasLeft id :=
    sends_send (fun _ _ _ ho => .ask ho (fun _ => Command.not_cancels_ofRequest)
      (Command.asksAs_ofRequest ..)) fun _ _ => .withdraw
  refine hsend.bind fun g' r hg' => ?_
  -- a request that could not be queued has left the line, one that was queued is waited for
  match r with
  | .error e => exact hg'
  | .ok () =>
    have hwait : Keeps (sending ε i).Neutral
        (Work.within limit (stepOn i (collect id)) : Work ε _) := by
      refine keeps_within (sending ε i).neutral_self fun w o w' hs => ?_
      obtain ⟨⟨o', c'⟩, hc', heq⟩ := Option.map_eq_some_iff.1 hs
      obtain ⟨⟨o'', calls⟩, -, heq'⟩ := Option.map_eq_some_iff.1 hc'
      cases heq
      cases heq'
      exact neutral_setConnection (.refl _)
    refine follows_then hwait fun r => ?_
    match r with
    | .ok outcome => exact hg'
    | .error e => exact hg'

/-- Who gives a call up takes it back, if it is registered, and then may cancel it. -/
theorem sends_giveUp {e : Failure} (hg : g.call.HasLeft id) :
    Follows (sending ε i) (giveUp i id e) g fun _ _ => True := by
  have habandon : Follows (sending ε i) (Work.onConnection i (abandon id)) g
      fun g' wasPending => wasPending = true → g'.call = .takenBack id := by
    refine follows_actOn fun c => ?_
    by_cases hpending : c.calls.pending.get? id = none
    · refine ⟨g, .rest (.refl _), fun h => ?_⟩
      simp [abandon, Calls.abandon, Table.has, hpending] at h
    · exact ⟨_, .takeBack hg hpending, fun _ => rfl⟩
  refine habandon.bind fun g' wasPending hg' => ?_
  split
  · next h =>
    have hcall := hg' (Bool.and_eq_true_iff.1 h).1
    change Follows (sending ε i) (Work.onConnection i fun c => ((), offerCancel id c)) g' _
    exact follows_actOn fun _ => ⟨_, .cancel hcall, trivial⟩
  · trivial

theorem sends_call {method : String} {params : Option Json} {token : Token}
    {timeout : Option Nat} (hg : g.call = .idle) :
    Follows (sending ε i) (call i method params token timeout) g fun _ _ => True := by
  refine follows_then neutral_parts.look fun cancelled => ?_
  split
  · trivial
  refine follows_then neutral_parts.look fun uptime => ?_
  have hnumber : Follows (sending ε i) (Work.onConnection i (numberCall uptime)) g
      fun g' id => g'.call = .numbered id :=
    follows_actOn fun _ => ⟨_, .number hg rfl rfl, rfl⟩
  refine hnumber.bind fun g' id hg' => ?_
  refine follows_then neutral_parts.register fun r => ?_
  match r with
  | .error e => trivial
  | .ok () =>
    refine follows_then neutral_parts.look fun started => ?_
    refine follows_then neutral_parts.look fun c => ?_
    refine (sends_exchange hg').bind fun g'' r hleft => ?_
    match r with
    | .ok result => trivial
    | .error e => exact (sends_giveUp hleft).bind fun _ _ _ => trivial

theorem sends_request {method : String} {params : Option Json} {token : Token}
    {timeout : Option Nat} (hg : g.call = .idle) :
    Follows (sending ε i) (request i method params token timeout) g fun _ _ => True := by
  refine follows_then neutral_parts.look fun c => ?_
  split
  · trivial
  · exact sends_call hg

/-! ### Notifications, and answers to the server -/

theorem keepsPhase_tell {method : String} {params : Option Json}
    (hmethod : method ≠ Method.cancelRequest) : KeepsPhase i g (tell i method params : Work ε _) :=
  follows_then (Keeps.update fun _ => neutral_setConnection (.refl _)) fun _ =>
    keepsPhase_send fun _ _ => Command.not_cancels_ofNotification hmethod

theorem keepsPhase_notify {method : String} {params : Option Json}
    (hmethod : method ≠ Method.cancelRequest) :
    KeepsPhase i g (notify i method params : Work ε _) := by
  refine follows_then neutral_parts.look fun c => ?_
  split
  · exact keepsPhase_pure _
  · exact keepsPhase_tell hmethod

theorem keepsPhase_answer {r : ServerRequest} : KeepsPhase i g (answer i r : Work ε Unit) := by
  refine follows_then neutral_parts.look fun c => ?_
  refine follows_then neutral_parts.handle fun outcome => ?_
  refine keepsPhase_enqueue fun _ => ?_
  match outcome with
  | .ok result => exact Command.not_cancels_of_id (Message.id_ofResult r.id result)
  | .error e => exact Command.not_cancels_of_id (Message.id_ofError r.id e)

/-! ### Services -/

theorem atRest_reader : Follows (sending ε i) (reader i) .idle (sending ε i).AtRest := by
  have hevent : Keeps (sending ε i).Neutral (wait (nextEvent i) : Work ε _) :=
    neutral_parts.await fun _ _ _ => aside_nextEvent
  refine follows_then hevent fun event => ?_
  match event with
  | .frame v =>
    have hreceive : Keeps (sending ε i).Neutral (Work.onConnection i (receive v) : Work ε _) :=
      Keeps.act fun w => neutral_setConnection (.of_eq (sameMail_receive v _).outbox)
    refine follows_then hreceive fun received => ?_
    match received with
    | .nothing => exact (sending ε i).atRest_idle true
    -- the reply is sent by a service of its own, so the reader is at rest
    | .request r =>
      have hanswer : Follows (sending ε i) (fork (answer i r)) .idle fun g' _ => g' = .idle :=
        Follows.fork (keepsPhase_answer.mono fun _ _ _ => trivial)
      exact hanswer.bind fun _ _ hg => hg ▸ (sending ε i).atRest_idle true
    | .response id outcome =>
      exact follows_then neutral_parts.complete fun _ => (sending ε i).atRest_idle true
  | .failed e =>
    change Follows (sending ε i) (if e.isRecoverable = true then _ else _) .idle _
    split
    · exact (sending ε i).atRest_idle true
    · exact follows_then neutral_parts.stopReading fun _ => (sending ε i).atRest_idle false
  | .ended => exact follows_then neutral_parts.stopReading fun _ => (sending ε i).atRest_idle false

theorem neutral_writerStep {w w' : World ε} {r : WriterStep}
    (h : writerStep i w = some (r, w')) : (sending ε i).Neutral w w' := by
  simp only [writerStep] at h
  split at h
  · simp only [writeSome] at h
    split at h
    · cases h
      exact neutral_setConnection (Outbox.spares_report ..)
    · split at h
      · cases h
      · cases h
        refine neutral_setConnection (w := w.onPipe _ _) ?_
        split
        · exact Outbox.spares_report ..
        · exact .refl _
  · split at h
    · cases h
    · next hnext =>
      cases h
      exact neutral_setConnection (Outbox.spares_next hnext)
    · next hnext =>
      cases h
      exact neutral_setConnection (w := w.onPipe _ _)
        ((Outbox.spares_next hnext).trans (Outbox.spares_close _))

theorem atRest_writer : Follows (sending ε i) (writer i) .idle (sending ε i).AtRest := by
  refine follows_then (Keeps.await fun _ _ _ => neutral_writerStep) fun r => ?_
  match r with
  | .goOn => exact (sending ε i).atRest_idle true
  | .finished => exact (sending ε i).atRest_idle false
  | .broken =>
    refine follows_then neutral_parts.sweep fun _ => ?_
    have hstop : Keeps (sending ε i).Neutral (stopWriting i : Work ε Unit) :=
      Keeps.update fun w => neutral_setConnection (w := w.onPipe _ _) (Outbox.spares_close _)
    exact follows_then hstop fun _ => (sending ε i).atRest_idle false

/-! ### Shutting down -/

theorem sends_shutdown : Follows (sending ε i) (shutdown i) .idle fun _ _ => True := by
  have hclosing : Keeps (sending ε i).Neutral (Work.onConnection i beginClosing : Work ε Bool) :=
    Keeps.act fun w => neutral_setConnection (.refl _)
  refine follows_then hclosing fun already => ?_
  split
  · exact (keepsPhase_of_neutral neutral_parts.untilClosed).mono fun _ _ _ => trivial
  refine follows_then neutral_parts.look fun c => ?_
  have hdrain : Keeps (sending ε i).Neutral (Work.onConnection i drain : Work ε _) :=
    Keeps.act fun w => neutral_setConnection (.refl _)
  refine follows_then hdrain fun t => follows_then (neutral_parts.failAll _ t) fun _ => ?_
  refine follows_then neutral_parts.look fun c' => ?_
  have hwindUp (g : Sender) : Follows (sending ε i) (do
      closeStream i
      endProcess i
      sweep i) g fun _ _ => True :=
    -- closing the stream is a command in the queue, but one that cancels nothing
    (keepsPhase_enqueue fun _ => Command.not_cancels_shutdown).bind fun _ _ _ =>
      follows_then neutral_parts.endProcess fun _ =>
        (keepsPhase_of_neutral neutral_parts.sweep).mono fun _ _ _ => trivial
  change Follows (sending ε i) (if c'.calls.closed = true then _ else _) .idle _
  split
  · exact hwindUp _
  · have hask : Follows (sending ε i) (askToExit i) .idle fun _ _ => True := by
      refine (sends_call rfl).bind fun g r _ => ?_
      match r with
      | .ok _ =>
        exact (keepsPhase_tell (by decide)).bind fun _ _ _ => trivial
      | .error _ => trivial
    exact hask.bind fun g _ _ => hwindUp g

end

end Connection

end LspClient
