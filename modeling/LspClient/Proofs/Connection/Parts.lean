import LspClient.Connection.Lifecycle
import LspClient.Diagnostic.Cache
import LspClient.Proofs.Connection.Parties
import LspClient.Proofs.Document.Notes
import LspClient.Proofs.Program.Steps
import LspClient.Proofs.Workspace.Handling

/-!
# What the programs of a connection are made of

All programs of a connection, but for the writer and the operations on documents, are made of the
same few parts: steps that have nothing to do with its documents and its outbox (`Aside`), and the
ways in which frames that are no document notifications get to the outbox. What holds of the parts,
and goes on from parts to programs (`Parts`), holds of all these programs. The reader does one thing
more: it takes frames in. Some programs send nothing, and are made of steps aside only
(`AsideParts`).
-/

namespace LspClient

open Program

/-- A command in which nobody has a document notification written, or waits for a report. -/
inductive Command.Plain : Command → Prop
  | send {frame : Json} (h : Document.noteOf frame = none) : Plain (.send frame none)
  | shutdown : Plain .shutdown

namespace Connection

variable {ε α β : Type} {i : Nat}

/-- The connections have the same documents, and the same to write. -/
structure SameMail (c c' : Connection) : Prop where
  documents : c'.documents = c.documents
  locks : c'.locks = c.locks
  outbox : c'.outbox = c.outbox
  writing : c'.writing = c.writing
  output : c'.output = c.output

theorem SameMail.refl (c : Connection) : SameMail c c := ⟨rfl, rfl, rfl, rfl, rfl⟩

theorem sameMail_takePublish (params : Json) (c : Connection) :
    SameMail c (c.takePublish params) := by
  unfold takePublish
  split <;> exact ⟨rfl, rfl, rfl, rfl, rfl⟩

theorem sameMail_receive (frame : Json) (c : Connection) : SameMail c (receive frame c).2 := by
  unfold receive
  split
  · exact .refl c
  · unfold takeResponse
    split <;> exact ⟨rfl, rfl, rfl, rfl, rfl⟩
  · exact .refl c
  · split
    · split
      · exact sameMail_takePublish _ c
      · exact .refl c
    · exact .refl c

/-- Nothing is published: what is cached may be dropped, at most. One who has ended does not come
back, and ends with nothing but that. -/
structure Calm (c c' : Connection) : Prop where
  cache : c.cache.Loses c'.cache
  ended : c.isAlive = false → c'.isAlive = false
  ends : c.calls.EndsClosed → c'.calls.EndsClosed

theorem Calm.of_eq {c c' : Connection} (hcache : c'.cache = c.cache)
    (halive : c'.isAlive = c.isAlive) (hends : c'.calls.closeError = c.calls.closeError) :
    Calm c c' := by
  refine ⟨?_, fun h => by rw [halive, h], fun h => by rwa [Calls.EndsClosed, hends]⟩
  rw [hcache]
  exact .refl _

/-- The connections have the same mail, and nothing was published. -/
structure Apart (c c' : Connection) : Prop where
  mail : SameMail c c'
  calm : Calm c c'

theorem Apart.of_eq {c c' : Connection} (hmail : SameMail c c') (hcache : c'.cache = c.cache)
    (halive : c'.isAlive = c.isAlive) (hends : c'.calls.closeError = c.calls.closeError) :
    Apart c c' := ⟨hmail, .of_eq hcache halive hends⟩

theorem Apart.refl (c : Connection) : Apart c c := .of_eq (.refl c) rfl rfl rfl

theorem apart_setTail (c : Connection) (tail : List UInt8) :
    Apart c { c with stderrTail := tail } := .of_eq ⟨rfl, rfl, rfl, rfl, rfl⟩ rfl rfl rfl

/-- The step leaves the clock, the registry, the batches and all connections but one alone, and of
that one the documents and the outbox; nothing is published there. -/
structure Aside (i : Nat) (w w' : World ε) : Prop where
  clock : w'.clock = w.clock
  registry : w'.registry = w.registry
  batches : w'.batches = w.batches
  length : w'.connections.length = w.connections.length
  others : ∀ j, j ≠ i → w'.connection j = w.connection j
  apart : Apart (w.connection i) (w'.connection i)
  sinks : ∀ p, (w.pipe p).sinkClosed = true → (w'.pipe p).sinkClosed = true

variable {w w' w'' : World ε} {c : Connection}

theorem connection_setConnection_cases (w : World ε) (i : Nat) (c : Connection) :
    (w.setConnection i c).connection i = c ∨
      (w.setConnection i c).connection i = w.connection i := by
  rcases Nat.lt_or_ge i w.connections.length with hi | hi
  · simp [World.connection, World.setConnection, List.getElem?_set_self hi]
  · simp [World.connection, World.setConnection, List.set_eq_of_length_le hi]

theorem connection_setConnection_ne {j : Nat} (h : j ≠ i) (w : World ε) (c : Connection) :
    (w.setConnection i c).connection j = w.connection j := by
  rw [World.connection, World.setConnection, List.getElem?_set_ne h.symm]
  rfl

theorem Aside.setConnection (h : Apart (w.connection i) c) : Aside i w (w.setConnection i c) := by
  refine ⟨rfl, rfl, rfl, List.length_set, fun j hj => connection_setConnection_ne hj w c, ?_,
    fun _ h => h⟩
  rcases connection_setConnection_cases w i c with heq | heq
  · rwa [heq]
  · rw [heq]
    exact .refl _

/-- A step that changes nothing here but the pipes, and opens none of them. -/
theorem Aside.of_eq (hclock : w'.clock = w.clock) (hr : w'.registry = w.registry)
    (hb : w'.batches = w.batches) (hc : w'.connections = w.connections)
    (hp : ∀ p, (w.pipe p).sinkClosed = true → (w'.pipe p).sinkClosed = true) : Aside i w w' := by
  have hsame (j : Nat) : w'.connection j = w.connection j := by
    rw [World.connection, World.connection, hc]
  refine ⟨hclock, hr, hb, by rw [hc], fun j _ => hsame j, ?_, hp⟩
  rw [hsame]
  exact .refl _

theorem Aside.refl (w : World ε) : Aside i w w := .of_eq rfl rfl rfl rfl fun _ h => h

/-- A pipe may be changed as long as its sink is not opened. -/
theorem sinkClosed_onPipe {f : Pipe → Pipe} {j : Nat}
    (hf : ∀ p, p.sinkClosed = true → (f p).sinkClosed = true) (w : World ε) (p : Nat)
    (h : (w.pipe p).sinkClosed = true) : ((w.onPipe j f).pipe p).sinkClosed = true := by
  unfold World.onPipe World.pipe at *
  by_cases hj : j = p
  · subst hj
    rcases Nat.lt_or_ge j w.pipes.length with hlt | hge
    · simp only [List.getElem?_set_self hlt, Option.getD_some]
      exact hf _ h
    · rwa [List.set_eq_of_length_le hge]
  · rwa [List.getElem?_set_ne hj]

theorem Aside.onPipe {f : Pipe → Pipe} {j : Nat}
    (hf : ∀ p, p.sinkClosed = true → (f p).sinkClosed = true) : Aside i w (w.onPipe j f) :=
  .of_eq rfl rfl rfl rfl (sinkClosed_onPipe hf w)

theorem Aside.files (t : FileTree) : Aside i w { w with files := t } :=
  .of_eq rfl rfl rfl rfl fun _ h => h

theorem aside_nextEvent {event : Frame.Event} (h : nextEvent i w = some (event, w')) :
    Aside i w w' := by
  simp only [nextEvent] at h
  split at h
  · cases h
    exact .onPipe fun _ h => h
  · cases h
    exact .onPipe fun _ h => h
  · cases h
    exact .refl w
  · cases h

/-- What goes on from steps aside to the programs that are made of nothing else. -/
structure AsideParts (i : Nat) (F : {α : Type} → Work ε α → Prop) : Prop where
  pure : ∀ {α : Type} (a : α), F (Pure.pure a : Work ε α)
  bind : ∀ {α β : Type} {p : Work ε α} {k : α → Work ε β}, F p → (∀ a, F (k a)) → F (p >>= k)
  fork : ∀ {p : Work ε Unit}, F p → F (fork p)
  await : ∀ {α : Type} {deadline : Option Nat} {step : World ε → Option (α × World ε)},
    (∀ w a w', step w = some (a, w') → Aside i w w') → F (.await deadline step .done)

namespace AsideParts

variable {F : {α : Type} → Work ε α → Prop} (h : AsideParts i F)

include h

/-! ### Steps -/

theorem act {step : World ε → α × World ε} (hstep : ∀ w, Aside i w (step w).2) :
    F (act step) :=
  h.await fun w a w' hs => by
    have heq := Option.some.inj hs
    have haside := hstep w
    rwa [heq] at haside

theorem update {f : World ε → World ε} (hf : ∀ w, Aside i w (f w)) : F (update f) :=
  h.act hf

theorem look {view : World ε → α} : F (look view) := h.act fun w => .refl w

theorem onConnection {f : Connection → α × Connection} (hf : ∀ c, Apart c (f c).2) :
    F (Work.onConnection i f) :=
  h.act fun w => .setConnection (hf (w.connection i))

theorem updateConnection {f : Connection → Connection} (hf : ∀ c, Apart c (f c)) :
    F (Program.update (World.onConnection i f)) :=
  h.update fun w => .setConnection (hf (w.connection i))

theorem inBackground {step : World ε → α × World ε} (hstep : ∀ w, Aside i w (step w).2) :
    F (Work.inBackground step) := by
  refine h.bind (h.act fun w => .of_eq rfl rfl rfl rfl fun _ h => h) fun job =>
    h.await fun w a w' hs => ?_
  split at hs
  · have heq : step w = (a, w') := Option.some.inj hs
    have haside := hstep w
    rwa [heq] at haside
  · cases hs

theorem within {limit : Limit} {step : World ε → Option (α × World ε)}
    (hstep : ∀ w a w', step w = some (a, w') → Aside i w w') : F (Work.within limit step) := by
  refine h.await fun w r w' hs => ?_
  split at hs
  · cases hs
    exact .refl w
  · split at hs
    · next a w'' ha =>
      cases hs
      exact hstep w a _ ha
    · obtain ⟨e, -, heq⟩ := Option.map_eq_some_iff.1 hs
      cases heq
      exact .refl w

/-- To wait until something is so. -/
theorem waitFor {deadline : Option Nat} {p : World ε → Bool} {a : α} :
    F (.await deadline (fun w => if p w then some (a, w) else none) .done) := by
  refine h.await fun w b w' hs => ?_
  split at hs
  · cases hs
    exact .refl w
  · cases hs

/-! ### Calls, and the end of a connection -/

theorem register {id : Nat} {method : String} :
    F (Work.onConnection i (register id method)) := by
  refine h.onConnection fun c => ?_
  unfold Connection.register
  split
  · next calls hcalls =>
    have hsame : calls.isAlive = c.calls.isAlive ∧ calls.closeError = c.calls.closeError := by
      unfold Calls.register at hcalls
      split at hcalls
      · cases hcalls
      · cases hcalls
        exact ⟨rfl, rfl⟩
    exact .of_eq ⟨rfl, rfl, rfl, rfl, rfl⟩ rfl hsame.1 hsame.2
  · exact .refl c

theorem complete {id : Nat} {outcome : Except Failure Json} : F (complete i id outcome) :=
  h.update fun _ => .setConnection (.of_eq ⟨rfl, rfl, rfl, rfl, rfl⟩ rfl rfl rfl)

theorem failAll (e : Failure) (t : Table Nat String) : F (failAll i e t) := by
  induction t with
  | nil => exact h.pure _
  | cons x t ih => exact h.bind h.complete fun _ => ih

theorem sweep : F (sweep i) := by
  refine h.bind h.look fun now => h.bind h.waitFor fun _ => ?_
  have hrecord (c : Connection) : Apart c (recordEnd c) :=
    ⟨⟨rfl, rfl, rfl, rfl, rfl⟩, .refl _, id, Calls.endsClosed_recordEnd⟩
  refine h.bind (h.updateConnection hrecord) fun _ => h.bind h.look fun c => ?_
  have hclose (c : Connection) : Apart c (close c).2 :=
    ⟨⟨rfl, rfl, rfl, rfl, rfl⟩, .refl _, fun _ => rfl, id⟩
  exact h.bind (h.onConnection hclose) fun t => h.failAll _ t

theorem stopReading : F (stopReading i) :=
  h.bind h.sweep fun _ => h.update fun _ => .onPipe fun _ _ => rfl

/-! ### Services -/

theorem read {channel : Channel} {limit : Nat} : F (channel.read limit : Work ε (List UInt8)) := by
  cases channel with
  | pipe j =>
    refine h.await fun w a w' hs => ?_
    simp only [Channel.takeFrom] at hs
    split at hs
    · obtain ⟨-, heq⟩ := Option.ite_none_right_eq_some.1 hs
      cases heq
      exact .refl w
    · cases hs
      exact .onPipe fun _ h => h
  | file at_ => exact h.pure _
  | null => exact h.pure _

theorem errorReader {errors : Channel} : F (errorReader i errors) := by
  refine h.bind h.read fun part => ?_
  match part with
  | [] =>
    refine h.bind (h.updateConnection fun _ => .of_eq ⟨rfl, rfl, rfl, rfl, rfl⟩ rfl rfl rfl)
      fun _ => ?_
    exact h.pure _
  | b :: part => exact h.bind (h.updateConnection fun c => apart_setTail c _) fun _ => h.pure _

theorem handle {settings : Option Json} {method : String} {params : Option Json} :
    F (Workspace.handle settings method params : Work ε (Except ResponseError Json)) :=
  Workspace.handle_of_parts h.pure fun _ =>
    ⟨h.pure, h.bind, fun _ => h.inBackground fun w => .refl w,
      fun _ _ => h.inBackground fun _ => .files _⟩

/-! ### Shutting down -/

theorem untilClosed : F (untilClosed i) := h.waitFor

theorem endProcess : F (endProcess i) := by
  refine h.bind (h.onConnection fun _ => .of_eq ⟨rfl, rfl, rfl, rfl, rfl⟩ rfl rfl rfl)
    fun child => ?_
  match child with
  | none => exact h.pure _
  | some child =>
    -- the wait for the process changes nothing, whether it ends or not
    have hjoin : F (Process.joinWithin child shutdownTimeout : Work ε Bool) := by
      refine h.bind h.look fun now => h.await fun w a w' hs => ?_
      split at hs
      · cases hs
        exact .refl w
      · obtain ⟨-, heq⟩ := Option.ite_none_right_eq_some.1 hs
        cases heq
        exact .refl w
    refine h.bind hjoin fun ended => ?_
    split
    · exact h.pure _
    · refine h.bind (h.update fun w => .of_eq rfl rfl rfl rfl fun _ h => h) fun _ => ?_
      refine h.bind (h.await fun w a w' hs => ?_) fun _ => h.pure _
      obtain ⟨_, -, heq⟩ := Option.map_eq_some_iff.1 hs
      cases heq
      exact .refl w

end AsideParts

/-- What goes on from the parts of the programs of a connection to the programs. -/
structure Parts (i : Nat) (F : {α : Type} → Work ε α → Prop) : Prop extends AsideParts i F where
  enqueue : ∀ {α : Type} {command : Command} {limit : Limit}
    {k : Except Failure Unit → Work ε α}, command.Plain → (∀ r, F (k r)) →
    F (do
      let ticket ← Work.onConnection i join
      let r ← Connection.enqueue i ticket command limit
      k r)
  send : ∀ {frame : Json} {limit : Limit}, Document.noteOf frame = none →
    F (Connection.send i frame limit)
  offer : ∀ id, F (update (World.onConnection i (offerCancel id)))

namespace Parts

variable {F : {α : Type} → Work ε α → Prop} (h : Parts i F)

include h

/-! ### Requests -/

theorem exchange {id : Nat} {frame : Json} {limit : Limit}
    (hframe : Document.noteOf frame = none) : F (exchange i id frame limit) := by
  refine h.bind (h.send hframe) fun r => ?_
  match r with
  | .error e => exact h.pure _
  | .ok () =>
    refine h.bind (h.within fun w o w' hs => ?_) fun r => ?_
    · obtain ⟨⟨o', c'⟩, hc', heq⟩ := Option.map_eq_some_iff.1 hs
      obtain ⟨⟨o'', calls⟩, hcalls, heq'⟩ := Option.map_eq_some_iff.1 hc'
      obtain ⟨o₃, -, heq₃⟩ := Option.map_eq_some_iff.1 hcalls
      cases heq
      cases heq'
      cases heq₃
      exact .setConnection (.of_eq ⟨rfl, rfl, rfl, rfl, rfl⟩ rfl rfl rfl)
    · match r with
      | .ok outcome => exact h.pure _
      | .error e => exact h.pure _

theorem giveUp {id : Nat} {e : Failure} : F (giveUp i id e) := by
  have habandon (c : Connection) : Apart c (abandon id c).2 :=
    .of_eq ⟨rfl, rfl, rfl, rfl, rfl⟩ rfl rfl rfl
  refine h.bind (h.onConnection habandon) fun wasPending => ?_
  split
  · exact h.offer id
  · exact h.pure _

theorem call {method : String} {params : Option Json} {token : Token} {timeout : Option Nat} :
    F (call i method params token timeout) := by
  refine h.bind h.look fun cancelled => ?_
  split
  · exact h.pure _
  refine h.bind h.look fun uptime => ?_
  refine h.bind (h.onConnection fun _ => .of_eq ⟨rfl, rfl, rfl, rfl, rfl⟩ rfl rfl rfl) fun id => ?_
  refine h.bind h.register fun r => ?_
  match r with
  | .error e => exact h.pure _
  | .ok () =>
    refine h.bind h.look fun started => ?_
    refine h.bind h.look fun c => ?_
    refine h.bind (h.exchange (Document.noteOf_ofRequest id method params)) fun r => ?_
    match r with
    | .ok result => exact h.pure _
    | .error e => exact h.bind h.giveUp fun _ => h.pure _

theorem request {method : String} {params : Option Json} {token : Token}
    {timeout : Option Nat} : F (request i method params token timeout) := by
  refine h.bind h.look fun c => ?_
  split
  · exact h.pure _
  · exact h.call

/-! ### Notifications, and answers to the server -/

theorem tell {method : String} {params : Option Json} (hmethod : method ∉ Document.methods) :
    F (tell i method params) :=
  h.bind (h.update fun _ => .setConnection (.of_eq ⟨rfl, rfl, rfl, rfl, rfl⟩ rfl rfl rfl)) fun _ =>
    h.send (Document.noteOf_ofNotification_of_not_mem hmethod params)

theorem notify {method : String} {params : Option Json} (hmethod : method ∉ Document.methods) :
    F (notify i method params) := by
  refine h.bind h.look fun c => ?_
  split
  · exact h.pure _
  · exact h.tell hmethod

theorem answer {r : ServerRequest} : F (answer i r) := by
  refine h.bind h.look fun c => h.bind h.handle fun outcome => ?_
  match outcome with
  | .ok result => exact h.enqueue (.send (Document.noteOf_ofResult r.id result)) fun _ => h.pure _
  | .error e => exact h.enqueue (.send (Document.noteOf_ofError r.id e)) fun _ => h.pure _

/-! ### Services -/

theorem reader (hreceive : ∀ frame, F (Work.onConnection i (receive frame))) : F (reader i) := by
  refine h.bind (h.await fun _ _ _ => aside_nextEvent) fun event => ?_
  match event with
  | .frame v =>
    refine h.bind (hreceive v) fun received => ?_
    match received with
    | .nothing => exact h.pure _
    | .request r => exact h.bind (h.fork h.answer) fun _ => h.pure _
    | .response id outcome => exact h.bind h.complete fun _ => h.pure _
  | .failed e =>
    change F (if e.isRecoverable = true then _ else _)
    split
    · exact h.pure _
    · exact h.bind h.stopReading fun _ => h.pure _
  | .ended => exact h.bind h.stopReading fun _ => h.pure _

/-! ### The handshake -/

theorem tellConfiguration {settings : Option Json} : F (tellConfiguration i settings) := by
  match settings with
  | none => exact h.pure _
  | some s => exact h.bind (h.notify (by decide)) fun _ => h.pure _

theorem shakeHands {options settings : Option Json} {token : Token} :
    F (shakeHands i options settings token) := by
  refine h.bind h.look fun c => ?_
  split
  · exact h.pure _
  refine h.bind h.request fun r => ?_
  match r with
  | .error e => exact h.pure _
  | .ok result =>
    refine h.bind (h.updateConnection fun _ => .of_eq ⟨rfl, rfl, rfl, rfl, rfl⟩ rfl rfl rfl)
      fun _ => ?_
    refine h.bind (h.notify (by decide)) fun r => ?_
    match r with
    | .error e => exact h.pure _
    | .ok () => exact h.bind h.tellConfiguration fun _ => h.pure _

/-! ### Shutting down -/

theorem askToExit : F (askToExit i) := by
  refine h.bind h.call fun r => ?_
  match r with
  | .ok _ => exact h.bind (h.tell (by decide)) fun _ => h.pure _
  | .error _ => exact h.pure _

theorem closeStream : F (closeStream i) := h.enqueue .shutdown fun _ => h.pure _

theorem shutdown : F (shutdown i) := by
  have hclosing (c : Connection) : Apart c (beginClosing c).2 := by
    refine ⟨⟨rfl, rfl, rfl, rfl, rfl⟩, .refl _, fun _ => ?_, id⟩
    simp [beginClosing, Calls.beginClosing, isAlive, Calls.isAlive]
  refine h.bind (h.onConnection hclosing) fun already => ?_
  split
  · exact h.untilClosed
  refine h.bind h.look fun c => ?_
  refine h.bind (h.onConnection fun _ => .of_eq ⟨rfl, rfl, rfl, rfl, rfl⟩ rfl rfl rfl) fun t => ?_
  refine h.bind (h.failAll _ t) fun _ => h.bind h.look fun c' => ?_
  -- whatever the server answers, the stream, the process and the calls are ended in this order
  have hwindUp : F (do
      Connection.closeStream i
      Connection.endProcess i
      Connection.sweep i) :=
    h.bind h.closeStream fun _ => h.bind h.endProcess fun _ => h.sweep
  change F (if c'.calls.closed = true then _ else _)
  split
  · exact hwindUp
  · exact h.bind h.askToExit fun _ => hwindUp

theorem establish {config : ServerConfig} : F (establish i config) := by
  refine h.bind h.shakeHands fun r => ?_
  match r with
  | .ok () => exact h.pure _
  | .error e => exact h.bind h.shutdown fun _ => h.pure _

end Parts

/-! ### Programs all of whose steps are alike -/

theorem keeps_within {G : World ε → World ε → Prop} {limit : Limit}
    {step : World ε → Option (α × World ε)} (hself : ∀ w, G w w)
    (hstep : ∀ w a w', step w = some (a, w') → G w w') : Keeps G (Work.within limit step) := by
  refine Keeps.await fun w r w' hs => ?_
  split at hs
  · cases hs
    exact hself w
  · split at hs
    · next a w'' ha =>
      cases hs
      exact hstep w a _ ha
    · obtain ⟨e, -, heq⟩ := Option.map_eq_some_iff.1 hs
      cases heq
      exact hself w

/-- The step leaves the clock, the registry and the batches alone, and changes the outbox of one
connection, at most, and what it is writing. -/
structure Posts (i : Nat) (w w' : World ε) : Prop where
  clock : w'.clock = w.clock
  registry : w'.registry = w.registry
  batches : w'.batches = w.batches
  length : w'.connections.length = w.connections.length
  others : ∀ j, j ≠ i → w'.connection j = w.connection j
  connection : ∃ outbox writing, w'.connection i = { w.connection i with outbox, writing }

theorem Posts.setConnection (outbox : Outbox) (writing : Option (List UInt8 × Option Nat)) :
    Posts i w (w.setConnection i { w.connection i with outbox, writing }) := by
  refine ⟨rfl, rfl, rfl, List.length_set, fun j hj => connection_setConnection_ne hj w _, ?_⟩
  rcases connection_setConnection_cases w i { w.connection i with outbox, writing } with h | h
  · exact ⟨outbox, writing, h⟩
  · exact ⟨_, _, h⟩

theorem Posts.onPipe_setConnection (j : Nat) (f : Pipe → Pipe) (outbox : Outbox)
    (writing : Option (List UInt8 × Option Nat)) :
    Posts i w ((w.onPipe j f).setConnection i { w.connection i with outbox, writing }) :=
  let ⟨hclock, hregistry, hbatches, hlength, hothers, hconnection⟩ :=
    Posts.setConnection (i := i) (w := w.onPipe j f) outbox writing
  ⟨hclock, hregistry, hbatches, hlength, hothers, hconnection⟩

theorem posts_writerStep {r : WriterStep} (h : writerStep i w = some (r, w')) : Posts i w w' := by
  simp only [writerStep] at h
  split at h
  · simp only [writeSome] at h
    split at h
    · cases h
      exact .setConnection _ _
    · split at h
      · cases h
      · cases h
        split
        · exact .onPipe_setConnection _ _ _ _
        · exact .onPipe_setConnection _ _ _ _
  · split at h
    · cases h
    · cases h
      exact .setConnection _ _
    · cases h
      exact .onPipe_setConnection _ _ _ _

section Keeps

/-- What steps aside are like, all steps of programs are like that are made of them. -/
theorem asideParts_keeps {G : World ε → World ε → Prop} (haside : ∀ w w', Aside i w w' → G w w') :
    AsideParts i fun p => Keeps G p where
  pure := Keeps.pure
  bind := Keeps.bind
  fork := Keeps.fork
  await h := Keeps.await fun w a w' hs => haside w w' (h w a w' hs)

variable {G : World ε → World ε → Prop} (haside : ∀ w w', Aside i w w' → G w w')
  (hposts : ∀ w w', Posts i w w' → G w w')

include haside hposts

theorem keeps_report {ticket : Nat} {limit : Limit}
    {step : Connection → Option (Except Failure Unit × Connection)}
    (hstep : ∀ c r c', step c = some (r, c') → ∃ o, c' = { c with outbox := o }) :
    Keeps G (do
      match ← Work.within limit (stepOn i step) with
      | .ok outcome => return outcome
      | .error e =>
        update (World.onConnection i (leave ticket))
        return .error e : Work ε (Except Failure Unit)) := by
  refine Keeps.bind (keeps_within (fun w => haside w w (.refl w)) fun w r w' hs => ?_) fun r => ?_
  · obtain ⟨⟨r', c'⟩, hc', heq⟩ := Option.map_eq_some_iff.1 hs
    cases heq
    obtain ⟨o, rfl⟩ := hstep _ _ _ hc'
    exact hposts _ _ (.setConnection o _)
  · match r with
    | .ok outcome => exact Keeps.pure _
    | .error e =>
      exact Keeps.bind (Keeps.update fun _ => hposts _ _ (.setConnection _ _)) fun _ =>
        Keeps.pure _

theorem keeps_enqueue {ticket : Nat} {command : Command} {limit : Limit} :
    Keeps G (enqueue i ticket command limit : Work ε _) := by
  refine keeps_report haside hposts fun c r c' hs => ?_
  unfold takeIn at hs
  split at hs
  · cases hs
    exact ⟨_, rfl⟩
  · obtain ⟨o, -, heq⟩ := Option.map_eq_some_iff.1 hs
    cases heq
    exact ⟨o, rfl⟩

theorem keeps_send {frame : Json} {limit : Limit} :
    Keeps G (send i frame limit : Work ε (Except Failure Unit)) := by
  refine Keeps.bind (Keeps.act fun _ => hposts _ _ (.setConnection _ _)) fun ticket => ?_
  refine Keeps.bind (keeps_enqueue haside hposts) fun r => ?_
  match r with
  | .error e => exact Keeps.pure _
  | .ok () =>
    refine keeps_report haside hposts fun c r c' hs => ?_
    obtain ⟨⟨d, o⟩, -, heq⟩ := Option.map_eq_some_iff.1 hs
    cases heq
    exact ⟨o, rfl⟩

/-- What steps aside and steps on the outbox are like, all steps of these programs are like. -/
theorem parts_keeps : Parts i fun p => Keeps G p where
  toAsideParts := asideParts_keeps haside
  enqueue _ hk := Keeps.bind (Keeps.act fun _ => hposts _ _ (.setConnection _ _)) fun _ =>
    Keeps.bind (keeps_enqueue haside hposts) hk
  send _ := keeps_send haside hposts
  offer _ := Keeps.update fun _ => hposts _ _ (.setConnection _ _)

/-- To notify the server of anything, a document or not. -/
theorem keeps_notify {method : String} {params : Option Json} :
    Keeps G (notify i method params : Work ε (Except Failure Unit)) := by
  refine Keeps.bind (Keeps.look fun w => haside w w (.refl w)) fun c => ?_
  split
  · exact Keeps.pure _
  · have htouch (w : World ε) : Aside i w (w.onConnection i (touch w.uptime)) :=
      .setConnection (.of_eq ⟨rfl, rfl, rfl, rfl, rfl⟩ rfl rfl rfl)
    exact Keeps.bind (Keeps.update fun w => haside _ _ (htouch w)) fun _ =>
      keeps_send haside hposts

theorem keeps_writer : Keeps G (writer i : Work ε Bool) := by
  refine Keeps.bind (Keeps.await fun w s w' hs => hposts w w' (posts_writerStep hs)) fun s => ?_
  match s with
  | .goOn => exact Keeps.pure _
  | .finished => exact Keeps.pure _
  | .broken =>
    refine Keeps.bind (parts_keeps haside hposts).sweep fun _ =>
      Keeps.bind (Keeps.update fun w => hposts _ _ (.onPipe_setConnection _ _ _ _)) fun _ =>
        Keeps.pure _

end Keeps

end Connection

end LspClient
