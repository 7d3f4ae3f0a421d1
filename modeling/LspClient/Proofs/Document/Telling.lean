import LspClient.Proofs.Document.InStep
import LspClient.Proofs.Document.Operations
import LspClient.Proofs.Document.Versions
import LspClient.Proofs.Program.Doing

/-!
# What an operation tells the server

A note has a text with it, or may have: an opening and a change that of the document from then on, a
saving that of the file if the server wants it. `lastText?` is the text that the server was told
last.

An operation that is over has posted nothing about its document but what it is to say (`Speaks`): the
content it was given, or what it read from the file at a moment of its own. If it succeeded the
server has been told (`Delivered`). It only fails with a cancellation where it saw one
(`Stopped`).
-/

namespace LspClient.Document

inductive Tiding where
  /-- The document is opened or changed. -/
  | text (content : Option String)
  | saved (content : Option String)
  deriving DecidableEq, Repr

def paramsOf (frame : Json) : Json := frame.member "params"

/-- The text that a document has by the last of its changes. -/
def changedTo (params : Json) : Option String :=
  ((params.member "contentChanges").arr?.bind List.getLast?).bind fun change =>
    (change.member "text").str?

def Note.tiding (params : Json) : Note → Tiding
  | .opened _ => .text ((documentOf params).member "text").str?
  | .changed _ => .text (changedTo params)
  | .saved => .saved (params.member "text").str?

/-- What a frame says about the text of a document. -/
def tidingOn (uri : String) (frame : Json) : Option Tiding :=
  (noteOn uri frame).map (Note.tiding (paramsOf frame))

def tidingsOf (uri : String) (frames : List Json) : List Tiding :=
  frames.filterMap (tidingOn uri)

def Tiding.text? : Tiding → Option (Option String)
  | .text content => some content
  | .saved _ => none

def lastText? (tidings : List Tiding) : Option String :=
  ((tidings.filterMap Tiding.text?).getLast?).join

/-- No other text is brought than this one. -/
def Tiding.Brings (content : String) (tiding : Tiding) : Prop :=
  ∀ content', tiding = .text content' → content' = some content

variable {uri content : String} {tidings news : List Tiding} {frame : Json} {tiding : Tiding}

theorem tidingsOf_append (uri : String) (frames frames' : List Json) :
    tidingsOf uri (frames ++ frames') = tidingsOf uri frames ++ tidingsOf uri frames' :=
  List.filterMap_append

theorem noteOn_of_tidingOn (h : tidingOn uri frame = some tiding) : noteOn uri frame ≠ none := by
  obtain ⟨note, hnote, -⟩ := Option.map_eq_some_iff.1 h
  rw [hnote]
  exact Option.some_ne_none note

/-- As long as no other text is brought, a text that was told stays the last one. -/
theorem lastText?_append (hnews : ∀ tiding ∈ news, tiding.Brings content)
    (htold : lastText? tidings = some content ∨ .text (some content) ∈ news) :
    lastText? (tidings ++ news) = some content := by
  induction news using List.reverseRecOn with
  | nil =>
    rw [List.append_nil]
    exact htold.resolve_right List.not_mem_nil
  | append_singleton news tiding ih =>
    have hbrings := hnews tiding (List.mem_append_right _ (List.mem_singleton_self _))
    cases tiding with
    | text content' =>
      obtain rfl := hbrings content' rfl
      simp [lastText?, Tiding.text?]
    | saved content' =>
      have hlast : lastText? (tidings ++ (news ++ [.saved content'])) =
          lastText? (tidings ++ news) := by
        simp [lastText?, Tiding.text?]
      rw [hlast]
      refine ih (fun tiding h => hnews tiding (List.mem_append_left _ h)) (htold.imp_right ?_)
      intro hmem
      rcases List.mem_append.1 hmem with hmem | hmem
      · exact hmem
      · cases List.mem_singleton.1 hmem

/-! ### The notifications of an operation -/

theorem paramsOf_ofNotification (method : String) (params : Json) :
    paramsOf (Message.ofNotification method (some params)) = params := by
  simp [paramsOf, Message.ofNotification, Message.paramsEntry, Message.version, Json.member,
    Json.get?_object]

theorem tidingOn_ofNotification {method : String} {params : Json} {note : Note}
    (h : noteOf (Message.ofNotification method (some params)) = some (uri, note)) :
    tidingOn uri (Message.ofNotification method (some params)) = some (note.tiding params) := by
  rw [tidingOn, noteOn_self h, paramsOf_ofNotification]
  rfl

theorem tidingOn_didOpen (uri languageId text : String) (version : Int) :
    tidingOn uri (Message.ofNotification Method.didOpen
      (some (Params.didOpen uri languageId version text))) = some (.text (some text)) := by
  rw [tidingOn_ofNotification (noteOf_didOpen ..)]
  simp [Note.tiding, documentOf, Params.didOpen, Json.member, Json.get?_object, Json.str?]

theorem tidingOn_didChange (uri text : String) (version : Int) :
    tidingOn uri (Message.ofNotification Method.didChange
      (some (Params.didChange uri version text))) = some (.text (some text)) := by
  rw [tidingOn_ofNotification (noteOf_didChange ..)]
  simp [Note.tiding, changedTo, Params.didChange, Json.member, Json.get?_object, Json.str?,
    Json.arr?]

theorem tidingOn_didSave (uri : String) (text : Option String) :
    tidingOn uri (Message.ofNotification Method.didSave (some (Params.didSave uri text))) =
      some (.saved text) := by
  rw [tidingOn_ofNotification (noteOf_didSave ..)]
  cases text <;>
    simp [Note.tiding, Params.didSave, Params.textDocument, Json.member, Json.get?_object,
      List.lookup_cons, Json.str?]

end LspClient.Document

namespace LspClient.Document

open Program Crew

variable {ε α β : Type} {i k : Nat} {a : Actor} {token : Token} {w w' : World ε}
  {frame : Json} {F F' : Json → Prop} {part moments : List (Moment (World ε))}

/-! ### Posting -/

/-- A frame is queued whose sender waits for the report on it. -/
def PostsFrame (i k : Nat) (frame : Json) (w w' : World ε) : Prop :=
  (w'.connection i).outbox.queue = (w.connection i).outbox.queue ++ [.send frame (some k)]

/-- No other notes are posted than those of a kind. -/
def PostsOnly (i : Nat) (F : Json → Prop) (w w' : World ε) : Prop :=
  ∀ k frame, noteOf frame ≠ none → PostsFrame i k frame w w' → F frame

theorem PostsOnly.mono (hF : ∀ frame, F frame → F' frame) (h : PostsOnly i F w w') :
    PostsOnly i F' w w' := fun k frame hnote hposts => hF frame (h k frame hnote hposts)

theorem PostsOnly.of_queue (h : (w'.connection i).outbox.queue = (w.connection i).outbox.queue) :
    PostsOnly i F w w' := fun k frame _ hposts => by
  rw [PostsFrame, h] at hposts
  simp at hposts

theorem PostsOnly.refl (w : World ε) : PostsOnly i F w w := .of_queue rfl

theorem PostsOnly.setConnection {c : Connection}
    (h : c.outbox.queue = (w.connection i).outbox.queue) :
    PostsOnly i F w (w.setConnection i c) := by
  refine .of_queue ?_
  rcases Connection.connection_setConnection_cases w i c with heq | heq
  · rw [heq, h]
  · rw [heq]

theorem PostsOnly.post {c : Connection} (hF : F frame)
    (h : c.outbox.queue = (w.connection i).outbox.queue ++ [.send frame (some k)]) :
    PostsOnly i F w (w.setConnection i c) := by
  intro k' frame' _ hposts
  rcases Connection.connection_setConnection_cases w i c with heq | heq
  · rw [PostsFrame, heq, h] at hposts
    simp only [List.append_cancel_left_eq, List.cons.injEq, Command.send.injEq] at hposts
    exact hposts.1.1 ▸ hF
  · rw [PostsFrame, heq] at hposts
    simp at hposts

theorem postsOnly_onConnection {f : Connection → α × Connection}
    (h : ∀ c, (f c).2.outbox.queue = c.outbox.queue) :
    Keeps (PostsOnly i F) (Work.onConnection i f : Work ε α) :=
  Keeps.act fun _ => .setConnection (h _)

theorem postsOnly_update {f : Connection → Connection}
    (h : ∀ c, (f c).outbox.queue = c.outbox.queue) :
    Keeps (PostsOnly i F) (update (World.onConnection i f) : Work ε Unit) :=
  Keeps.update fun _ => .setConnection (h _)

theorem postsOnly_look {view : World ε → α} : Keeps (PostsOnly i F) (look view) := Keeps.look .refl

theorem postsOnly_leave {ticket : Nat} : Keeps (PostsOnly i F)
    (update (World.onConnection i (Connection.leave ticket)) : Work ε Unit) :=
  postsOnly_update fun _ => rfl

/-- A command is queued when it is taken in, and else the connection has ended. -/
theorem takeIn_cases {c c' : Connection} {ticket : Nat} {command : Command}
    {r : Except Failure Unit} (h : c.takeIn ticket command = some (r, c')) :
    (r = .error c.calls.closedError ∧ c'.outbox.queue = c.outbox.queue) ∨
      (r = .ok () ∧ c'.outbox.queue = c.outbox.queue ++ [command]) := by
  unfold Connection.takeIn at h
  split at h
  · cases h
    exact .inl ⟨rfl, rfl⟩
  · obtain ⟨o, ho, heq⟩ := Option.map_eq_some_iff.1 h
    cases heq
    exact .inr ⟨rfl, (takeIn_eq_some ho).1⟩

theorem postsOnly_send {limit : Limit} (hF : F frame) :
    Keeps (PostsOnly i F) (Connection.send i frame limit : Work ε (Except Failure Unit)) := by
  refine Keeps.bind (postsOnly_onConnection fun _ => rfl) fun ticket => ?_
  have henqueue : Keeps (PostsOnly i F) (Connection.enqueue i ticket (.send frame (some ticket))
      limit : Work ε _) := by
    refine Keeps.bind (Connection.keeps_within .refl fun w r w' hs => ?_) fun r => ?_
    · obtain ⟨⟨r', c⟩, hc, heq⟩ := Option.map_eq_some_iff.1 hs
      cases heq
      rcases takeIn_cases hc with ⟨-, hqueue⟩ | ⟨-, hqueue⟩
      · exact .setConnection hqueue
      · exact .post hF hqueue
    · match r with
      | .ok _ => exact Keeps.pure _
      | .error _ => exact Keeps.bind postsOnly_leave fun _ => Keeps.pure _
  refine Keeps.bind henqueue fun r => ?_
  match r with
  | .error _ => exact Keeps.pure _
  | .ok () =>
    refine Keeps.bind (Connection.keeps_within .refl fun w r w' hs => ?_) fun r => ?_
    · obtain ⟨⟨r', c⟩, hc, heq⟩ := Option.map_eq_some_iff.1 hs
      obtain ⟨⟨d, o⟩, ho, heq'⟩ := Option.map_eq_some_iff.1 hc
      cases heq
      cases heq'
      exact .setConnection (collect_eq_some ho).2.1
    · match r with
      | .ok _ => exact Keeps.pure _
      | .error _ => exact Keeps.bind postsOnly_leave fun _ => Keeps.pure _

theorem postsOnly_notify {method : String} {params : Option Json}
    (hF : F (Message.ofNotification method params)) :
    Keeps (PostsOnly i F) (Connection.notify i method params : Work ε _) := by
  refine Keeps.bind postsOnly_look fun c => ?_
  split
  · exact Keeps.pure _
  · exact Keeps.bind (Keeps.update fun _ => .setConnection rfl) fun _ => postsOnly_send hF

/-! ### Hearing -/

/-- A frame was posted and reported to be written. Its sender did nothing in between. -/
def Delivered (a : Actor) (i : Nat) (frame : Json) (moments : List (Moment (World ε))) : Prop :=
  ∃ k before m between m' after, moments = before ++ m :: (between ++ m' :: after) ∧
    m.actor = a ∧ PostsFrame i k frame m.before m.after ∧ Silent a between ∧ m'.actor = a ∧
    (m'.before.connection i).outbox.deliveries.get? k = some .written

/-- The state is one that the actor saw. -/
def Saw (a : Actor) (moments : List (Moment (World ε))) (w : World ε) : Prop :=
  ∃ m ∈ moments, m.actor = a ∧ m.before = w

/-- The connection had ended by a cancellation. -/
def Ended (a : Actor) (i : Nat) (moments : List (Moment (World ε))) : Prop :=
  ∃ w, Saw a moments w ∧ (w.connection i).calls.closedError.isCancelled = true

theorem Saw.mono (h : Saw a part w) (hpart : part <:+: moments) : Saw a moments w := by
  obtain ⟨m, hm, hw⟩ := h
  exact ⟨m, hpart.subset hm, hw⟩

theorem Delivered.mono (h : Delivered a i frame part) (hpart : part <:+: moments) :
    Delivered a i frame moments := by
  obtain ⟨front, back, rfl⟩ := hpart
  obtain ⟨k, before, m, between, m', after, rfl, hm⟩ := h
  exact ⟨k, front ++ before, m, between, m', after ++ back, by simp, hm⟩

theorem Ended.mono (h : Ended a i part) (hpart : part <:+: moments) : Ended a i moments := by
  obtain ⟨w, hw, hended⟩ := h
  exact ⟨w, hw.mono hpart, hended⟩

/-- One who sent a frame of a kind has heard that it was written, or has failed. -/
structure Sent (a : Actor) (i : Nat) (F : Json → Prop) (moments : List (Moment (World ε)))
    (r : Except Failure α) : Prop where
  delivered : ∀ x, r = .ok x → ∃ frame, F frame ∧ Delivered a i frame moments
  ended : ∀ e, r = .error e → e.isCancelled = true → Ended a i moments

namespace Sent

variable {r : Except Failure α} {x : α} {e : Failure}

theorem mono (hF : ∀ frame, F frame → F' frame) (hpart : part <:+: moments)
    (h : Sent a i F part r) : Sent a i F' moments r where
  delivered x hx := by
    obtain ⟨frame, hframe, hdelivered⟩ := h.delivered x hx
    exact ⟨frame, hF frame hframe, hdelivered.mono hpart⟩
  ended e he hcancelled := (h.ended e he hcancelled).mono hpart

theorem of_delivered (hF : F frame) (h : Delivered a i frame moments) :
    Sent a i F moments (.ok x) := ⟨fun _ _ => ⟨frame, hF, h⟩, nofun⟩

theorem of_error (h : e.isCancelled = true → Ended a i moments) :
    Sent a i F moments (.error e : Except Failure α) where
  delivered := nofun
  ended e' he := by
    cases he
    exact h

theorem map (h : Sent a i F moments r) (f : α → β) : Sent a i F moments (r.map f) := by
  cases r with
  | error e => exact of_error (h.ended e rfl)
  | ok x =>
    obtain ⟨frame, hframe, hdelivered⟩ := h.delivered x rfl
    exact of_delivered hframe hdelivered

end Sent

/-- A wait within a limit ends with its step, with a cancellation or at the time limit. -/
theorem does_within {limit : Limit} {step : World ε → Option (α × World ε)}
    {r : Except Failure α} (h : Does a (Work.within limit step) moments (.done r)) :
    ∃ before m after, moments = before ++ m :: after ∧ Silent a before ∧ Silent a after ∧
      m.actor = a ∧ ((∃ x, r = .ok x ∧ step m.before = some (x, m.after)) ∨
        (r = .error .cancelled ∧ m.before.isCancelled limit.token = true) ∨
        ∃ t e, limit.expiry = some (t, e) ∧ r = .error e) := by
  obtain ⟨before, m, after, hms, hbefore, hafter, hm, hs⟩ := h.await_inv
  refine ⟨before, m, after, hms, hbefore, hafter, hm, ?_⟩
  split at hs
  · next hcancelled =>
    obtain ⟨rfl, -⟩ := Prod.mk.inj (Option.some.inj hs)
    exact .inr (.inl ⟨rfl, hcancelled⟩)
  · split at hs
    · next x w' hx =>
      obtain ⟨rfl, rfl⟩ := Prod.mk.inj (Option.some.inj hs)
      exact .inl ⟨x, rfl, hx⟩
    · obtain ⟨e, he, heq⟩ := Option.map_eq_some_iff.1 hs
      obtain ⟨rfl, -⟩ := Prod.mk.inj heq
      obtain ⟨t, ht⟩ := Connection.expiry_of_expired? he
      exact .inr (.inr ⟨t, e, ht, rfl⟩)

/-- A wait that nothing cuts short. -/
theorem does_within_never {step : Connection → Option (α × Connection)} {r : Except Failure α}
    (h : Does a (Work.within Limit.never (Connection.stepOn i step)) moments (.done r)) :
    ∃ before m after x c, moments = before ++ m :: after ∧ Silent a before ∧ Silent a after ∧
      m.actor = a ∧ r = .ok x ∧ step (m.before.connection i) = some (x, c) ∧
      m.after = m.before.setConnection i c := by
  obtain ⟨before, m, after, hms, hbefore, hafter, hm, hcases⟩ := does_within h
  rcases hcases with ⟨x, rfl, hs⟩ | ⟨-, hcancelled⟩ | ⟨t, e, hexpiry, -⟩
  · obtain ⟨⟨x', c⟩, hc, heq⟩ := Option.map_eq_some_iff.1 hs
    obtain ⟨rfl, hafter'⟩ := Prod.mk.inj heq
    exact ⟨before, m, after, x', c, hms, hbefore, hafter, hm, rfl, hc, hafter'.symm⟩
  · cases hcancelled
  · cases hexpiry

/-- What is queued to be written. -/
def queue (i : Nat) (w : World ε) : List Command := (w.connection i).outbox.queue

theorem queue_setConnection {c : Connection}
    (h : c.outbox.queue = (w.connection i).outbox.queue) :
    queue i (w.setConnection i c) = queue i w := by
  unfold queue
  rcases Connection.connection_setConnection_cases w i c with heq | heq
  · rw [heq, h]
  · rw [heq]

/-- What became of a frame that was sent: the connection had ended, or the frame was queued once and
reported on. -/
inductive Posting (a : Actor) (i : Nat) (frame : Json) (moments : List (Moment (World ε))) :
    Except Failure Unit → Prop
  | refused {m : Moment (World ε)} (hmem : m ∈ moments) (hm : m.actor = a)
      (h : Leaves a (queue i) moments) :
      Posting a i frame moments (.error (m.before.connection i).calls.closedError)
  | reported {k : Nat} {m m' : Moment (World ε)} {before between after : List (Moment (World ε))}
      {d : Delivery} (heq : moments = before ++ m :: (between ++ m' :: after))
      (hm : m.actor = a) (hposts : PostsFrame i k frame m.before m.after)
      (hsilent : Silent a between) (hm' : m'.actor = a)
      (hd : (m'.before.connection i).outbox.deliveries.get? k = some d)
      (hbefore : Leaves a (queue i) before) (hafter : Leaves a (queue i) (m' :: after)) :
      Posting a i frame moments ((m'.before.connection i).outcomeOf d)

namespace Posting

variable {r : Except Failure Unit}

theorem after (h : Posting a i frame moments r) (hpart : Leaves a (queue i) part) :
    Posting a i frame (part ++ moments) r := by
  cases h with
  | refused hmem hm h => exact .refused (List.mem_append_right _ hmem) hm (hpart.append h)
  | @reported k m m' before between after d heq hm hposts hsilent hm' hd hbefore hafter =>
    have hall : part ++ moments = (part ++ before) ++ m :: (between ++ m' :: after) := by
      rw [heq, List.append_assoc]
    exact .reported hall hm hposts hsilent hm' hd (hpart.append hbefore) hafter

theorem sent (h : Posting a i frame moments r) : Sent a i (· = frame) moments r := by
  cases h with
  | refused hmem hm => exact .of_error fun hcancelled => ⟨_, ⟨_, hmem, hm, rfl⟩, hcancelled⟩
  | @reported k m m' before between after d heq hm hposts hsilent hm' hd =>
    cases d with
    | written =>
      exact .of_delivered rfl ⟨k, before, m, between, m', after, heq, hm, hposts, hsilent, hm', hd⟩
    | failed message => exact .of_error nofun
    | dropped =>
      exact .of_error fun hcancelled => ⟨_, ⟨m', by simp [heq], hm', rfl⟩, hcancelled⟩

end Posting

section Told

variable (hi : ∀ m ∈ moments, i < m.before.connections.length)

include hi

theorem posting_of_send {r : Except Failure Unit}
    (h : Does a (Connection.send i frame Limit.never) moments (.done r)) :
    Posting a i frame moments r := by
  obtain ⟨joining, ticket, rest, rfl, hjoin, h⟩ := h.bind_inv
  obtain ⟨queuing, queued, waiting, rfl, hqueue, h⟩ := h.bind_inv
  obtain ⟨inLine, out, back, rfl, hin, hqueue⟩ := hqueue.bind_inv
  obtain ⟨before, m, after, x, c, rfl, hbefore, hafter, hm, rfl, hc, hset⟩ := does_within_never hin
  obtain ⟨rfl, hback⟩ := hqueue.pure_inv
  have hjoining : Leaves a (queue i) joining :=
    hjoin.leaves (Keeps.act fun _ => queue_setConnection rfl)
  -- the queue is closed, or takes the frame in and reports on it later
  rcases takeIn_cases hc with ⟨rfl, hsame⟩ | ⟨rfl, hposted⟩
  · obtain ⟨rfl, hlast⟩ := h.pure_inv
    refine .refused (m := m) (by simp) hm (hjoining.append (.append ?_ hlast.leaves))
    refine .append (.append hbefore.leaves (.cons (fun _ => ?_) hafter.leaves)) hback.leaves
    rw [hset]
    exact queue_setConnection hsame
  · obtain ⟨hearing, heard, last, rfl, hhear, h⟩ := h.bind_inv
    obtain ⟨before', m', after', x', c', rfl, hbefore', hafter', hm', rfl, hc', hset'⟩ :=
      does_within_never hhear
    obtain ⟨rfl, hlast⟩ := h.pure_inv
    obtain ⟨⟨d, o⟩, ho, heq⟩ := Option.map_eq_some_iff.1 hc'
    obtain ⟨rfl, rfl⟩ := Prod.mk.inj heq
    obtain ⟨hd, hsame, -⟩ := collect_eq_some ho
    refine .reported (by simp : _ =
        (joining ++ before) ++ m :: ((after ++ back ++ before') ++ m' :: (after' ++ last))) hm ?_
      ((hafter.append hback).append hbefore') hm' hd (hjoining.append hbefore.leaves)
      (.cons (fun _ => ?_) (hafter'.append hlast).leaves)
    · rw [PostsFrame, hset, World.connection_setConnection (hi m (by simp)), hposted]
    · rw [hset']
      exact queue_setConnection hsame

theorem posting_of_notify {method : String} {params : Option Json} {r : Except Failure Unit}
    (h : Does a (Connection.notify i method params) moments (.done r)) :
    Posting a i (Message.ofNotification method params) moments r := by
  obtain ⟨looking, c, rest, rfl, hlook, h⟩ := h.bind_inv
  have hlooking : Leaves a (queue i) looking := hlook.leaves (Keeps.look fun _ => rfl)
  obtain ⟨m, hm, hactor, rfl⟩ := hlook.look_inv
  cases husable : (m.before.connection i).usable with
  | error e =>
    rw [husable] at h
    obtain ⟨rfl, hlast⟩ := h.pure_inv
    unfold Connection.usable at husable
    split at husable
    · cases husable
    · cases husable
      exact .refused (List.mem_append_left _ hm) hactor (hlooking.append hlast.leaves)
  | ok _ =>
    rw [husable] at h
    obtain ⟨touching, _, sending, rfl, htouch, h⟩ := h.bind_inv
    have htouching : Leaves a (queue i) touching :=
      htouch.leaves (Keeps.update fun _ => queue_setConnection rfl)
    exact ((posting_of_send (fun m hm => hi m (by simp [hm])) h).after htouching).after hlooking

theorem does_notify {method : String} {params : Option Json} {r : Except Failure Unit}
    (h : Does a (Connection.notify i method params) moments (.done r)) :
    Sent a i (· = Message.ofNotification method params) moments r :=
  (posting_of_notify hi h).sent

/-- The frame brings a text of the document. -/
def IsText (uri content : String) (frame : Json) : Prop :=
  tidingOn uri frame = some (.text (some content))

theorem does_sendOpen {uri content : String} {path : Path} {r : Except Failure Unit}
    (h : Does a (sendOpen i uri path content) moments (.done r)) :
    Sent a i (IsText uri content) moments r := by
  obtain ⟨looking, c, rest, rfl, -, h⟩ := h.bind_inv
  obtain ⟨notifying, sent, recording, rfl, hnotify, h⟩ := h.bind_inv
  have hpart : notifying <:+: looking ++ (notifying ++ recording) := ⟨looking, recording, by simp⟩
  have hsent : Sent a i (IsText uri content) _ sent :=
    (does_notify (fun m hm => hi m (hpart.subset hm)) hnotify).mono
      (by rintro _ rfl; exact tidingOn_didOpen ..) hpart
  cases sent with
  | error e =>
    obtain ⟨rfl, -⟩ := h.pure_inv
    exact hsent
  | ok _ =>
    obtain ⟨_, _, _, -, -, h⟩ := h.bind_inv
    obtain ⟨rfl, -⟩ := h.pure_inv
    exact hsent

theorem does_sendChange {uri content : String} {current : Int} {r : Except Failure Int}
    (h : Does a (sendChange i uri current content) moments (.done r)) :
    Sent a i (IsText uri content) moments r := by
  obtain ⟨notifying, sent, recording, rfl, hnotify, h⟩ := h.bind_inv
  have hpart : notifying <:+: notifying ++ recording := ⟨[], recording, rfl⟩
  have hsent : Sent a i (IsText uri content) _ sent :=
    (does_notify (fun m hm => hi m (hpart.subset hm)) hnotify).mono
      (by rintro _ rfl; exact tidingOn_didChange ..) hpart
  cases sent with
  | error e =>
    obtain ⟨rfl, -⟩ := h.pure_inv
    exact .of_error (hsent.ended e rfl)
  | ok _ =>
    obtain ⟨_, _, _, -, -, h⟩ := h.bind_inv
    obtain ⟨rfl, -⟩ := h.pure_inv
    exact hsent.map fun _ => Documents.nextVersion current

theorem does_push {uri content : String} {path : Path} {r : Except Failure SyncOutcome}
    (h : Does a (push i uri path content) moments (.done r)) :
    Sent a i (IsText uri content) moments r := by
  obtain ⟨reading, version, rest, rfl, -, h⟩ := h.bind_inv
  have hrest : rest <:+: reading ++ rest := ⟨reading, [], by simp⟩
  have hi' : ∀ m ∈ rest, i < m.before.connections.length := fun m hm => hi m (hrest.subset hm)
  refine Sent.mono (fun _ h => h) hrest ?_
  cases version with
  | none =>
    obtain ⟨sending, sent, last, rfl, hsend, h⟩ := h.bind_inv
    have hpart : sending <:+: sending ++ last := ⟨[], last, rfl⟩
    obtain ⟨rfl, -⟩ := h.pure_inv
    exact ((does_sendOpen (fun m hm => hi' m (hpart.subset hm)) hsend).mono (fun _ h => h)
      hpart).map _
  | some current =>
    obtain ⟨sending, sent, last, rfl, hsend, h⟩ := h.bind_inv
    have hpart : sending <:+: sending ++ last := ⟨[], last, rfl⟩
    obtain ⟨rfl, -⟩ := h.pure_inv
    exact ((does_sendChange (fun m hm => hi' m (hpart.subset hm)) hsend).mono (fun _ h => h)
      hpart).map _

end Told

/-! ### What is posted in the moments of one actor -/

/-- The notes that the actor posts are of a kind. -/
def Voices (a : Actor) (i : Nat) (F : Json → Prop) (moments : List (Moment (World ε))) : Prop :=
  ∀ m ∈ moments, m.actor = a → PostsOnly i F m.before m.after

theorem Voices.append {later : List (Moment (World ε))} (h : Voices a i F moments)
    (h' : Voices a i F later) : Voices a i F (moments ++ later) :=
  fun m hm => (List.mem_append.1 hm).elim (h m) (h' m)

theorem Voices.mono (hF : ∀ frame, F frame → F' frame) (h : Voices a i F moments) :
    Voices a i F' moments := fun m hm ha => (h m hm ha).mono hF

theorem voices_of_silent (h : Silent a moments) : Voices a i F moments :=
  fun m hm ha => absurd ha (h m hm)

theorem voices_of_keeps {p q : Work ε α} (h : Does a p moments q) (hp : Keeps (PostsOnly i F) p) :
    Voices a i F moments := (h.keeps .refl hp).1

theorem postsOnly_release {ticket : Nat} : Keeps (PostsOnly i F)
    (update (World.onConnection i (releaseLock ticket)) : Work ε Unit) :=
  postsOnly_update fun _ => rfl

/-- One holds the lock during an operation, or has seen that one was cancelled. -/
theorem does_withLock {uri : String} {operation : Work ε (Except Failure α)}
    {r : Except Failure α} (h : Does a (withLock i uri token operation) moments (.done r)) :
    (∃ part, part <:+: moments ∧ Does a operation part (.done r) ∧
      ∀ F, Voices a i F part → Voices a i F moments) ∨
    ((∀ F, Voices a i F moments) ∧ r = .error .cancelled ∧
      ∃ w, Saw a moments w ∧ w.isCancelled token = true) := by
  obtain ⟨joining, ticket, rest, rfl, hjoin, h⟩ := h.bind_inv
  obtain ⟨waiting, got, rest, rfl, hwait, h⟩ := h.bind_inv
  have hjoining (F : Json → Prop) : Voices a i F joining :=
    voices_of_keeps hjoin (postsOnly_onConnection fun _ => rfl)
  have hwaiting (F : Json → Prop) : Voices a i F waiting := by
    refine voices_of_keeps hwait (Connection.keeps_within .refl fun w r w' hs => ?_)
    obtain ⟨⟨r', c⟩, hc, heq⟩ := Option.map_eq_some_iff.1 hs
    obtain ⟨locks, -, heq'⟩ := Option.map_eq_some_iff.1 hc
    cases heq
    cases heq'
    exact .setConnection rfl
  cases got with
  -- without the lock the operation is not carried out
  | error e =>
    obtain ⟨releasing, _, last, rfl, hrelease, h⟩ := h.bind_inv
    obtain ⟨rfl, hlast⟩ := h.pure_inv
    refine .inr ⟨fun F => (hjoining F).append ((hwaiting F).append
      ((voices_of_keeps hrelease postsOnly_release).append (voices_of_silent hlast))), ?_⟩
    obtain ⟨before, m, after, rfl, -, -, hm, hcases⟩ := does_within hwait
    rcases hcases with ⟨_, heq, -⟩ | ⟨heq, hcancelled⟩ | ⟨t, e', hexpiry, -⟩
    · cases heq
    · cases heq
      exact ⟨rfl, _, ⟨m, by simp, hm, rfl⟩, hcancelled⟩
    · cases hexpiry
  | ok _ =>
    obtain ⟨part, outcome, rest, rfl, hpart, h⟩ := h.bind_inv
    obtain ⟨releasing, _, last, rfl, hrelease, h⟩ := h.bind_inv
    obtain ⟨rfl, hlast⟩ := h.pure_inv
    refine .inl ⟨part, ⟨joining ++ waiting, releasing ++ last, by simp⟩, hpart, fun F hF => ?_⟩
    exact (hjoining F).append ((hwaiting F).append
      (hF.append ((voices_of_keeps hrelease postsOnly_release).append (voices_of_silent hlast))))

theorem does_inBackground {step : World ε → α × World ε} {x : α}
    (h : Does a (Work.inBackground step) moments (.done x)) :
    ∃ before m after, moments = before ++ m :: after ∧ m.actor = a ∧ Silent a after ∧
      step m.before = (x, m.after) := by
  obtain ⟨beginning, job, rest, rfl, -, h⟩ := h.bind_inv
  obtain ⟨before, m, after, rfl, -, hafter, hm, hs⟩ := h.await_inv
  refine ⟨beginning ++ before, m, after, by simp, hm, hafter, ?_⟩
  exact Option.some.inj (Option.ite_none_right_eq_some.1 hs).2

theorem postsOnly_readIfExists {path : Path} :
    Keeps (PostsOnly i F) (readIfExists path : Work ε (Except Failure (Option String))) := by
  refine Keeps.bind (Work.keeps_inBackground (fun _ => .of_queue rfl) .refl) fun r => ?_
  split <;> exact Keeps.pure _

/-- What one knows of a file who has tried to read it. -/
inductive ReadAs (t : FileTree) (path : Path) : Except Failure (Option String) → Prop
  | text {content : String} (h : t.readText path = .ok content) :
      ReadAs t path (.ok (some content))
  | missing (h : t.readText path = .error .notFound) : ReadAs t path (.ok none)
  | failed (e : FileError) : ReadAs t path (.error (.file path e.message))

theorem does_readIfExists {path : Path} {r : Except Failure (Option String)}
    (h : Does a (readIfExists path : Work ε _) moments (.done r)) :
    ∃ w, Saw a moments w ∧ ReadAs w.files path r := by
  obtain ⟨reading, read, rest, rfl, hread, h⟩ := h.bind_inv
  obtain ⟨before, m, after, rfl, hm, -, hs⟩ := does_inBackground hread
  obtain ⟨hread, -⟩ := Prod.mk.inj hs
  refine ⟨m.before, ⟨m, by simp, hm, rfl⟩, ?_⟩
  cases read with
  | ok content =>
    obtain ⟨rfl, -⟩ := h.pure_inv
    exact .text hread
  | error e =>
    cases e with
    | notFound =>
      obtain ⟨rfl, -⟩ := h.pure_inv
      exact .missing hread
    | _ =>
      obtain ⟨rfl, -⟩ := h.pure_inv
      exact .failed _

theorem postsOnly_version? {uri : String} :
    Keeps (PostsOnly i F) (version? i uri : Work ε (Option Int)) :=
  Keeps.bind postsOnly_look fun _ => Keeps.pure _

theorem does_version? {uri : String} {version : Option Int}
    (h : Does a (version? i uri) moments (.done version)) :
    ∃ w, Saw a moments w ∧ version = (w.connection i).documents.version? uri := by
  obtain ⟨looking, c, rest, rfl, hlook, h⟩ := h.bind_inv
  obtain ⟨m, hm, hactor, rfl⟩ := hlook.look_inv
  obtain ⟨rfl, -⟩ := h.pure_inv
  exact ⟨_, ⟨m, List.mem_append_left _ hm, hactor, rfl⟩, rfl⟩

theorem postsOnly_sendOpen {uri content : String} {path : Path} :
    Keeps (PostsOnly i (IsText uri content)) (sendOpen i uri path content : Work ε _) := by
  refine Keeps.bind postsOnly_look fun c => ?_
  refine Keeps.bind (postsOnly_notify (tidingOn_didOpen ..)) fun r => ?_
  match r with
  | .error _ => exact Keeps.pure _
  | .ok _ => exact Keeps.bind (postsOnly_update fun _ => rfl) fun _ => Keeps.pure _

theorem postsOnly_push {uri content : String} {path : Path} :
    Keeps (PostsOnly i (IsText uri content)) (push i uri path content : Work ε _) := by
  refine Keeps.bind postsOnly_version? fun version => ?_
  match version with
  | none => exact Keeps.bind postsOnly_sendOpen fun _ => Keeps.pure _
  | some current =>
    refine Keeps.bind (Keeps.bind (postsOnly_notify (tidingOn_didChange ..)) fun r => ?_) fun _ =>
      Keeps.pure _
    match r with
    | .error _ => exact Keeps.pure _
    | .ok _ => exact Keeps.bind (postsOnly_update fun _ => rfl) fun _ => Keeps.pure _

/-- The frame tells that the document was saved. -/
def IsSaved (uri : String) (content : Option String) (frame : Json) : Prop :=
  tidingOn uri frame = some (.saved content)

theorem postsOnly_sendSave {uri : String} {content : Option String} :
    Keeps (PostsOnly i (IsSaved uri content)) (sendSave i uri content : Work ε _) :=
  postsOnly_notify (tidingOn_didSave ..)

theorem does_sendSave (hi : ∀ m ∈ moments, i < m.before.connections.length) {uri : String}
    {content : Option String} {r : Except Failure Unit}
    (h : Does a (sendSave i uri content) moments (.done r)) :
    Sent a i (IsSaved uri content) moments r :=
  (does_notify hi h).mono (by rintro _ rfl; exact tidingOn_didSave ..) List.infix_rfl

end LspClient.Document
