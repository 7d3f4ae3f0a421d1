import LspClient.Proofs.Connection.Correlation
import LspClient.Proofs.Document.Notes

/-!
# Who may still ask

What the programs of a connection do to its table of calls and to its outbox, as far as requests go.
A request looks whether the connection is usable, gets a number, is registered and stands in line;
from its check on until it leaves the line it is `ahead`, and may register a call and queue a
request, and from then on it is `past`, and does neither. A shutdown that has set the flag is the
`closer`: it takes all calls out, completes them with an error one after another, and touches the
outbox and the process when it holds none of them any more. All other programs neither register
calls nor queue requests.

`Does` lists what one may do at each of these standings, and `standing` is the discipline of it.
What a program stays at its standing for (`Stays`) goes on from its parts to it.
-/

namespace LspClient

open Program

/-- The command has the server asked for a method. -/
def Command.Asks (cmd : Command) (method : String) : Prop :=
  ∃ frame ticket id params, cmd = .send frame ticket ∧
    Message.classify frame = some (.request id method params)

namespace Connection

open Calls Crew

variable {ε α β : Type} {i : Nat} {A : String → Prop}

/-- Calls are registered and requests queued for no other methods than those of `A`. -/
structure AsksOnly (A : String → Prop) (c c' : Connection) : Prop where
  closing : c'.calls.closing = c.calls.closing
  pending : ∀ id method, c'.calls.pending.get? id = some method →
    c.calls.pending.get? id = some method ∨ A method
  queue : ∀ cmd ∈ c'.outbox.queue, cmd ∈ c.outbox.queue ∨ ∀ method, cmd.Asks method → A method

/-- No call is registered, and no request queued. -/
abbrev AsksNothing : Connection → Connection → Prop := AsksOnly fun _ => False

namespace AsksOnly

variable {c c' : Connection}

theorem of_eq (hcalls : c'.calls = c.calls) (houtbox : c'.outbox = c.outbox) :
    AsksOnly A c c' :=
  ⟨by rw [hcalls], fun _ _ h => .inl (hcalls ▸ h), fun _ h => .inl (houtbox ▸ h)⟩

theorem refl (c : Connection) : AsksOnly A c c := of_eq rfl rfl

theorem mono {A' : String → Prop} (hA : ∀ m, A m → A' m) (h : AsksOnly A c c') :
    AsksOnly A' c c' :=
  ⟨h.closing, fun id m hm => (h.pending id m hm).imp_right (hA m), fun cmd hcmd =>
    (h.queue cmd hcmd).imp_right fun hasks m hm => hA m (hasks m hm)⟩

/-- Only the calls change, and calls are at most taken out. -/
theorem of_calls {calls : Calls} (hclosing : calls.closing = c.calls.closing)
    (hpending : ∀ id m, calls.pending.get? id = some m → c.calls.pending.get? id = some m) :
    AsksOnly A c { c with calls } :=
  ⟨hclosing, fun id m hm => .inl (hpending id m hm), fun _ h => .inl h⟩

/-- Only the outbox changes, and at most a command of `A` is queued. -/
theorem of_outbox {outbox : Outbox}
    (hqueue : ∀ cmd ∈ outbox.queue, cmd ∈ c.outbox.queue ∨ ∀ m, cmd.Asks m → A m) :
    AsksOnly A c { c with outbox } :=
  ⟨rfl, fun _ _ h => .inl h, hqueue⟩

end AsksOnly

/-! ### Standings -/

inductive Standing where
  /-- A service that has no part in this. -/
  | idle
  /-- A request that has not looked yet whether it may be made. -/
  | asking
  | ahead
  | past
  | closer (held : List (Nat × Outcome))

/-- What one may do to a connection. -/
inductive Does : Standing → Connection → Connection → Standing → Prop
  | rest {g : Standing} {c : Connection} : Does g c c g
  | serve {c c' : Connection} (h : AsksNothing c c') : Does .idle c c' .idle
  | check {c : Connection} (h : c.calls.closing = false) : Does .asking c c .ahead
  | ask {c c' : Connection} (h : AsksOnly (fun _ => True) c c')
      (hline : c.outbox.line.length ≤ c'.outbox.line.length) : Does .ahead c c' .ahead
  | leave {c c' : Connection} (h : AsksOnly (fun _ => True) c c') : Does .ahead c c' .past
  | wait {c c' : Connection} (h : AsksNothing c c') : Does .past c c' .past
  | begin {c : Connection} (h : c.calls.closing = false) :
      Does .idle c (beginClosing c).2 (.closer [])
  | drain {c : Connection} {e : Failure} :
      Does (.closer []) c (drain c).2 (.closer (failing e c.calls.pending))
  | complete {c : Connection} {id : Nat} {o : Outcome} {rest : List (Nat × Outcome)} :
      Does (.closer ((id, o) :: rest)) c { c with calls := c.calls.complete id o } (.closer rest)
  | close {c c' : Connection} (h : AsksOnly (· = Method.shutdown) c c') :
      Does (.closer []) c c' (.closer [])

def standing (ε : Type) (i : Nat) : Discipline (World ε) Standing :=
  disciplineOn ε i Does .idle fun _ _ => .rest

/-- The program is at one standing all along. -/
def Stays (i : Nat) (g : Standing) (p : Work ε α) : Prop :=
  Follows (standing ε i) p g fun g' _ => g' = g

/-- The steps that ask for methods of `A` may be taken at `g`, and one stays there. -/
def Allows (A : String → Prop) (g : Standing) : Prop :=
  ∀ c c', AsksOnly A c c' → Does g c c' g

theorem allows_idle : Allows (fun _ => False) .idle := fun _ _ h => .serve h

theorem allows_past : Allows (fun _ => False) .past := fun _ _ h => .wait h

theorem allows_closer : Allows (· = Method.shutdown) (.closer []) := fun _ _ h => .close h

/-! ### Steps -/

section

variable {g : Standing}

theorem Stays.pure (a : α) : Stays i g (Pure.pure a : Work ε α) := rfl

theorem Stays.bind {p : Work ε α} {k : α → Work ε β} (hp : Stays i g p)
    (hk : ∀ a, Stays i g (k a)) : Stays i g (p >>= k) :=
  Follows.bind hp fun _ a hg => hg ▸ hk a

theorem Stays.then {p : Work ε α} {k : α → Work ε β} {Q : Standing → β → Prop}
    (hp : Stays i g p) (hk : ∀ a, Follows (standing ε i) (k a) g Q) :
    Follows (standing ε i) (p >>= k) g Q :=
  Follows.bind hp fun _ a hg => hg ▸ hk a

/-- A step that leaves all connections alone. -/
theorem stays_await {deadline : Option Nat} {step : World ε → Option (α × World ε)}
    (h : ∀ w a w', step w = some (a, w') → w'.connections = w.connections) :
    Stays i g (.await deadline step .done) := by
  refine Follows.await fun w a w' hinv hs => ⟨g, ?_, rfl⟩
  have hsame : w'.connection i = w.connection i := by
    rw [World.connection, World.connection, h w a w' hs]
  refine ⟨?_, ?_⟩
  · rw [h w a w' hs]
    exact hinv
  · rw [hsame]
    exact .rest

theorem stays_act {step : World ε → α × World ε}
    (h : ∀ w, (step w).2.connections = w.connections) : Stays i g (act step) :=
  stays_await fun w a w' hs => by
    have hw := h w
    rwa [Option.some.inj hs] at hw

theorem stays_look {view : World ε → α} : Stays i g (look view) := stays_act fun _ => rfl

theorem stays_inBackground {step : World ε → α × World ε}
    (h : ∀ w, (step w).2.connections = w.connections) : Stays i g (Work.inBackground step) := by
  refine (stays_act fun _ => rfl).bind fun job => stays_await fun w a w' hs => ?_
  obtain ⟨-, heq⟩ := Option.ite_none_right_eq_some.1 hs
  have hw := h w
  rwa [Option.some.inj heq] at hw

/-- A step on the connection. -/
theorem does_onConnection {f : Connection → α × Connection} {Q : Standing → α → Prop}
    (h : ∀ c, ∃ g', Does g c (f c).2 g' ∧ Q g' (f c).1) :
    Follows (standing ε i) (Work.onConnection i f) g Q := follows_actOn h

theorem stays_onConnection (hg : Allows A g) {f : Connection → α × Connection}
    (h : ∀ c, AsksOnly A c (f c).2) : Stays i g (Work.onConnection i f : Work ε α) :=
  does_onConnection fun c => ⟨g, hg _ _ (h c), rfl⟩

theorem stays_update (hg : Allows A g) {f : Connection → Connection}
    (h : ∀ c, AsksOnly A c (f c)) :
    Stays i g (update (World.onConnection i f) : Work ε Unit) := by
  change Stays i g (Work.onConnection i fun c => ((), f c))
  exact stays_onConnection hg h

/-- A step on the connection and on things that are no connections. -/
theorem stays_besidePipes (hg : Allows A g) {deadline : Option Nat}
    {step : World ε → Option (α × World ε)}
    (h : ∀ w a w', step w = some (a, w') → ∃ (v : World ε) (c : Connection),
      v.connections = w.connections ∧ w' = v.setConnection i c ∧
        AsksOnly A (w.connection i) c) :
    Stays i g (.await deadline step .done) := by
  refine Follows.await fun w a w' hinv hs => ?_
  obtain ⟨v, c, hv, rfl, hasks⟩ := h w a w' hs
  have hi : i < v.connections.length := hv ▸ hinv
  refine ⟨g, ⟨?_, ?_⟩, rfl⟩
  · rw [World.length_setConnection]
    exact hi
  · rw [World.connection_setConnection hi]
    exact hg _ _ hasks

theorem does_within {limit : Limit} {step : Connection → Option (α × Connection)}
    {Q : Standing → Except Failure α → Prop}
    (hstep : ∀ c a c', step c = some (a, c') → ∃ g', Does g c c' g' ∧ Q g' (.ok a))
    (hcut : ∃ g', (∀ c, Does g c c g') ∧ ∀ e, Q g' (.error e)) :
    Follows (standing ε i) (Work.within limit (stepOn i step)) g Q := follows_withinOn hstep hcut

theorem stays_within (hg : Allows A g) {limit : Limit}
    {step : Connection → Option (α × Connection)}
    (hstep : ∀ c a c', step c = some (a, c') → AsksOnly A c c') :
    Stays i g (Work.within limit (stepOn i step) : Work ε (Except Failure α)) :=
  does_within (fun c a c' hs => ⟨g, hg c c' (hstep c a c' hs), rfl⟩)
    ⟨g, fun _ => .rest, fun _ => rfl⟩

end

/-! ### Commands -/

theorem asks_ofRequest {id : Nat} {method : String} {params : Option Json} {ticket : Option Nat}
    {m : String} (h : (Command.send (Message.ofRequest id method params) ticket).Asks m) :
    m = method := by
  obtain ⟨frame, t, id', params', heq, hclass⟩ := h
  cases heq
  rw [Message.classify_ofRequest] at hclass
  cases hclass
  rfl

theorem not_asks_ofNotification {method : String} {params : Option Json} {ticket : Option Nat}
    (m : String) : ¬ (Command.send (Message.ofNotification method params) ticket).Asks m := by
  rintro ⟨frame, t, id, params', heq, hclass⟩
  cases heq
  rw [Message.classify_ofNotification] at hclass
  cases hclass

theorem not_asks_shutdown (m : String) : ¬ Command.shutdown.Asks m := by
  rintro ⟨frame, t, id, params, heq, -⟩
  cases heq

/-- A frame without a method asks for nothing. -/
theorem not_asks_of_noMethod {frame : Json} {ticket : Option Nat}
    (h : frame.get? "method" = none) (m : String) : ¬ (Command.send frame ticket).Asks m := by
  rintro ⟨frame', t, id, params, heq, hclass⟩
  cases heq
  rw [Message.classify, h] at hclass
  cases hid : frame.get? "id" with
  | none =>
    rw [hid] at hclass
    cases hclass
  | some j =>
    rw [hid] at hclass
    obtain ⟨n, -, hclass⟩ := Option.bind_eq_some_iff.1 hclass
    obtain ⟨o, -, heq⟩ := Option.bind_eq_some_iff.1 hclass
    cases heq

theorem not_asks_ofResult {id result : Json} {ticket : Option Nat} (m : String) :
    ¬ (Command.send (Message.ofResult id result) ticket).Asks m :=
  not_asks_of_noMethod (Message.method_ofResult _ _) m

theorem not_asks_ofError {id : Json} {e : ResponseError} {ticket : Option Nat} (m : String) :
    ¬ (Command.send (Message.ofError id e) ticket).Asks m :=
  not_asks_of_noMethod (Message.method_ofError _ _) m

/-! ### Sending -/

theorem asksOnly_takeIn {c c' : Connection} {ticket : Nat} {command : Command}
    {r : Except Failure Unit} (hcommand : ∀ m, command.Asks m → A m)
    (h : c.takeIn ticket command = some (r, c')) : AsksOnly A c c' := by
  unfold takeIn at h
  split at h
  · cases h
    exact .of_outbox fun _ hcmd => .inl hcmd
  · obtain ⟨o, ho, heq⟩ := Option.map_eq_some_iff.1 h
    cases heq
    unfold Outbox.takeIn at ho
    split at ho
    · cases ho
    · cases ho
      refine .of_outbox fun cmd hcmd => ?_
      rcases List.mem_append.1 hcmd with hcmd | hcmd
      · exact .inl hcmd
      · rw [List.mem_singleton.1 hcmd]
        exact .inr hcommand

theorem asksOnly_delivered {c c' : Connection} {ticket : Nat} {r : Except Failure Unit}
    (h : c.delivered ticket = some (r, c')) : AsksOnly A c c' := by
  obtain ⟨⟨d, o⟩, ho, heq⟩ := Option.map_eq_some_iff.1 h
  obtain ⟨d', -, heq'⟩ := Option.map_eq_some_iff.1 ho
  cases heq
  cases heq'
  exact .of_outbox fun _ hcmd => .inl hcmd

theorem asksOnly_collect {c c' : Connection} {id : Nat} {r : Outcome}
    (h : collect id c = some (r, c')) : AsksOnly A c c' := by
  obtain ⟨⟨r', calls⟩, hcalls, heq⟩ := Option.map_eq_some_iff.1 h
  obtain ⟨-, rfl⟩ := eq_of_collect hcalls
  cases heq
  exact .of_calls rfl fun _ _ h => h

theorem get?_of_get?_erase {t : Table Nat String} {id id' : Nat} {m : String}
    (h : (t.erase id').get? id = some m) : t.get? id = some m := by
  by_cases hid : id' = id
  · subst hid
    rw [Table.get?_erase_self] at h
    cases h
  · rwa [Table.get?_erase_ne _ hid] at h

theorem asksOnly_abandon (c : Connection) (id : Nat) : AsksOnly A c (abandon id c).2 :=
  .of_calls rfl fun _ _ h => get?_of_get?_erase h

theorem asksOnly_offerCancel (c : Connection) (id : Nat) : AsksOnly A c (offerCancel id c) := by
  refine .of_outbox fun cmd hcmd => ?_
  unfold Outbox.offer at hcmd
  split at hcmd
  · exact .inl hcmd
  · rcases List.mem_append.1 hcmd with hcmd | hcmd
    · exact .inl hcmd
    · rw [List.mem_singleton.1 hcmd]
      exact .inr fun m hm => absurd hm (not_asks_ofNotification m)

theorem asksOnly_register {c : Connection} {id : Nat} {method : String} (hmethod : A method) :
    AsksOnly A c (register id method c).2 := by
  unfold register
  split
  · next calls hcalls =>
    rw [eq_of_register hcalls]
    refine ⟨rfl, fun id' m hm => ?_, fun _ hcmd => .inl hcmd⟩
    by_cases hid : id = id'
    · subst hid
      rw [Table.get?_put_self] at hm
      cases hm
      exact .inr hmethod
    · rw [Table.get?_put_ne _ _ hid] at hm
      exact .inl hm
  · exact .refl c

section

variable {g : Standing} (hg : Allows A g)

include hg

theorem stays_report {ticket : Nat} {limit : Limit}
    {step : Connection → Option (Except Failure Unit × Connection)}
    (hstep : ∀ c r c', step c = some (r, c') → AsksOnly A c c') :
    Stays i g (do
      match ← Work.within limit (stepOn i step) with
      | .ok outcome => return outcome
      | .error e =>
        update (World.onConnection i (leave ticket))
        return .error e : Work ε (Except Failure Unit)) := by
  refine (stays_within hg hstep).bind fun r => ?_
  match r with
  | .ok outcome => exact .pure _
  | .error e =>
    have hleave (c : Connection) : AsksOnly A c (leave ticket c) :=
      .of_outbox fun _ hcmd => .inl hcmd
    exact (stays_update hg hleave).bind fun _ => .pure _

theorem stays_enqueue {ticket : Nat} {command : Command} {limit : Limit}
    (hcommand : ∀ m, command.Asks m → A m) :
    Stays i g (enqueue i ticket command limit : Work ε _) :=
  stays_report hg fun _ _ _ => asksOnly_takeIn hcommand

theorem stays_join : Stays i g (Work.onConnection i join : Work ε Nat) :=
  stays_onConnection hg fun _ => .of_outbox fun _ hcmd => .inl hcmd

theorem stays_send {frame : Json} {limit : Limit}
    (hframe : ∀ ticket m, (Command.send frame ticket).Asks m → A m) :
    Stays i g (send i frame limit : Work ε _) := by
  refine (stays_join hg).bind fun ticket => ?_
  refine (stays_enqueue hg (hframe _)).bind fun r => ?_
  match r with
  | .error e => exact .pure _
  | .ok () => exact stays_report hg fun _ _ _ => asksOnly_delivered

theorem stays_awaitOutcome {id : Nat} {limit : Limit} :
    Stays i g (do
      match ← Work.within limit (stepOn i (collect id)) with
      | .ok outcome => return outcome
      | .error e => return .error e : Work ε (Except Failure Json)) := by
  refine (stays_within hg fun _ _ _ => asksOnly_collect).bind fun r => ?_
  match r with
  | .ok outcome => exact .pure _
  | .error e => exact .pure _

theorem stays_giveUp {id : Nat} {e : Failure} : Stays i g (giveUp i id e : Work ε Unit) := by
  refine (stays_onConnection hg fun c => asksOnly_abandon c id).bind fun wasPending => ?_
  split
  · exact stays_update hg fun c => asksOnly_offerCancel c id
  · exact .pure _

theorem stays_tell {method : String} {params : Option Json} :
    Stays i g (tell i method params : Work ε _) := by
  have htouch : Stays i g
      (update fun w : World ε => w.onConnection i (touch w.uptime)) := by
    refine follows_awaitOn fun w a w' hs => ?_
    cases hs
    exact ⟨_, rfl, g, hg _ _ (.of_eq rfl rfl), rfl⟩
  exact htouch.bind fun _ =>
    stays_send hg fun _ m hm => absurd hm (not_asks_ofNotification m)

theorem stays_notify {method : String} {params : Option Json} :
    Stays i g (notify i method params : Work ε _) := by
  refine stays_look.bind fun c => ?_
  split
  · exact .pure _
  · exact stays_tell hg

theorem stays_answer {r : ServerRequest} : Stays i g (answer i r : Work ε Unit) := by
  refine stays_look.bind fun c => ?_
  have hhandle : Stays i g (Workspace.handle c.settings r.method r.params :
      Work ε (Except ResponseError Json)) :=
    Workspace.handle_of_parts (F := fun p => Stays i g p) Stays.pure fun _ =>
      ⟨Stays.pure, Stays.bind, fun _ => stays_inBackground fun _ => rfl,
        fun path content => stays_inBackground (Workspace.connections_writeText path content)⟩
  refine hhandle.bind fun outcome => (stays_join hg).bind fun ticket => ?_
  refine (stays_enqueue hg fun m hm => ?_).bind fun _ => .pure _
  match outcome with
  | .ok result => exact absurd hm (not_asks_ofResult m)
  | .error e => exact absurd hm (not_asks_ofError m)

/-! ### The end of a connection -/

theorem stays_complete {id : Nat} {outcome : Except Failure Json} :
    Stays i g (complete i id outcome : Work ε Unit) :=
  stays_update hg fun _ => .of_calls rfl fun _ _ h => h

theorem stays_failAll (e : Failure) (t : Table Nat String) :
    Stays i g (failAll i e t : Work ε Unit) := by
  induction t with
  | nil => exact .pure _
  | cons x t ih => exact (stays_complete hg).bind fun _ => ih

theorem stays_sweep : Stays i g (sweep i : Work ε Unit) := by
  refine stays_look.bind fun now => Stays.bind (stays_await fun w a w' hs => ?_) fun _ => ?_
  · obtain ⟨-, heq⟩ := Option.ite_none_right_eq_some.1 hs
    cases heq
    rfl
  · have hrecord (c : Connection) : AsksOnly A c (recordEnd c) := .of_calls rfl fun _ _ h => h
    refine (stays_update hg hrecord).bind fun _ => stays_look.bind fun c => ?_
    have hclose (c : Connection) : AsksOnly A c (close c).2 := .of_calls rfl fun _ _ h => by cases h
    exact (stays_onConnection hg hclose).bind fun t => stays_failAll hg _ t

end

end Connection

end LspClient
