import LspClient.Connection.Lifecycle
import LspClient.Proofs.Connection.Parties
import LspClient.Proofs.Workspace.Handling

/-!
# The discipline of a connection

The programs of a connection follow the discipline of `Calls.Acts`, one party for each program. Most
steps leave the calls alone (`KeepsCalls`); the others are actions of their party. What is sent
leaves the calls alone, and a failure to send is none of the server's answers (`Unanswered`).
-/

namespace LspClient

open Program

/-- The failure is the answer of a server. -/
def Failure.IsAnswer : Failure → Prop
  | .protocol .. => True
  | _ => False

/-- A time limit stands for a failure that is no answer. -/
def Limit.Silent (limit : Limit) : Prop :=
  ∀ t e, limit.expiry = some (t, e) → ¬ e.IsAnswer

theorem Limit.silent_never : Limit.never.Silent := fun t e h => by cases h

namespace World

variable {ε : Type} {w w' : World ε} {i : Nat} {c : Connection}

@[simp] theorem length_setConnection (w : World ε) (i : Nat) (c : Connection) :
    (w.setConnection i c).connections.length = w.connections.length :=
  List.length_set

theorem connection_setConnection (hi : i < w.connections.length) :
    (w.setConnection i c).connection i = c := by
  simp [connection, setConnection, List.getElem?_set_self hi]

/-- The step leaves the calls of a connection alone. -/
def SameCalls (i : Nat) (w w' : World ε) : Prop :=
  w'.connections.length = w.connections.length ∧
    (w'.connection i).calls = (w.connection i).calls

theorem sameCalls_of_connections_eq (h : w'.connections = w.connections) : SameCalls i w w' := by
  unfold SameCalls connection
  rw [h]
  exact ⟨rfl, rfl⟩

theorem sameCalls_setConnection (h : c.calls = (w.connection i).calls) :
    SameCalls i w (w.setConnection i c) := by
  refine ⟨length_setConnection w i c, ?_⟩
  rcases Nat.lt_or_ge i w.connections.length with hi | hi
  · rw [connection_setConnection hi, h]
  · rw [setConnection, List.set_eq_of_length_le hi]

end World

namespace Connection

open Calls

section

variable {ε α γ : Type} {i : Nat} {Does : γ → Connection → Connection → γ → Prop} {idle g : γ}
  {hrest : ∀ g c, Does g c c g}

/-- The discipline of what is done to one connection. -/
def disciplineOn (ε : Type) (i : Nat) (Does : γ → Connection → Connection → γ → Prop) (idle : γ)
    (hrest : ∀ g c, Does g c c g) : Discipline (World ε) γ where
  Inv w := i < w.connections.length
  Acts g w w' g' := i < w'.connections.length ∧ Does g (w.connection i) (w'.connection i) g'
  idle := idle
  inv_of_acts _ h := h.1
  acts_self h := ⟨h, hrest _ _⟩

theorem follows_awaitOn {deadline : Option Nat} {step : World ε → Option (α × World ε)}
    {Q : γ → α → Prop} (h : ∀ w a w', step w = some (a, w') → ∃ c, w' = w.setConnection i c ∧
      ∃ g', Does g (w.connection i) c g' ∧ Q g' a) :
    Follows (disciplineOn ε i Does idle hrest) (.await deadline step .done) g Q := by
  refine Follows.await fun w a w' hinv hs => ?_
  obtain ⟨c, rfl, g', hdoes, hQ⟩ := h w a w' hs
  refine ⟨g', ⟨?_, ?_⟩, hQ⟩
  · rw [World.length_setConnection]
    exact hinv
  · rw [World.connection_setConnection hinv]
    exact hdoes

theorem follows_actOn {f : Connection → α × Connection} {Q : γ → α → Prop}
    (h : ∀ c, ∃ g', Does g c (f c).2 g' ∧ Q g' (f c).1) :
    Follows (disciplineOn ε i Does idle hrest) (Work.onConnection i f) g Q := by
  refine follows_awaitOn fun w a w' hs => ?_
  cases hs
  exact ⟨_, rfl, h (w.connection i)⟩

/-- A wait within a limit ends with its step, or nothing happens. -/
theorem follows_withinOn {limit : Limit} {step : Connection → Option (α × Connection)}
    {Q : γ → Except Failure α → Prop}
    (hstep : ∀ c a c', step c = some (a, c') → ∃ g', Does g c c' g' ∧ Q g' (.ok a))
    (hcut : ∃ g', (∀ c, Does g c c g') ∧ ∀ e, Q g' (.error e)) :
    Follows (disciplineOn ε i Does idle hrest) (Work.within limit (stepOn i step)) g Q := by
  obtain ⟨g', hstay, hQ⟩ := hcut
  refine Follows.await fun w r w' hinv hs => ?_
  split at hs
  · cases hs
    exact ⟨g', ⟨hinv, hstay _⟩, hQ _⟩
  · split at hs
    · next a w'' ha =>
      cases hs
      obtain ⟨⟨a', c'⟩, hc', heq⟩ := Option.map_eq_some_iff.1 ha
      cases heq
      obtain ⟨g'', hdoes, hQ'⟩ := hstep _ _ _ hc'
      refine ⟨g'', ⟨?_, ?_⟩, hQ'⟩
      · rw [World.length_setConnection]
        exact hinv
      · rw [World.connection_setConnection hinv]
        exact hdoes
    · obtain ⟨e, -, heq⟩ := Option.map_eq_some_iff.1 hs
      cases heq
      exact ⟨g', ⟨hinv, hstay _⟩, hQ _⟩

end

variable {ε α β : Type} {i : Nat} {g : Party}

/-- The frames that a step takes out of the pipe of a connection. -/
def Reads (i : Nat) (w w' : World ε) (frame : Json) : Prop :=
  nextEvent i w = some (.frame frame, w')

def discipline (ε : Type) (i : Nat) : Discipline (World ε) Party where
  Inv w := i < w.connections.length ∧ (w.connection i).calls.EndsClosed
  Acts g w w' g' := i < w'.connections.length ∧
    Calls.Acts (Reads i w w') g (w.connection i).calls (w'.connection i).calls g'
  idle := Party.idle
  Ends p := p.held = []
  ends_idle := rfl
  inv_of_acts h hacts := ⟨hacts.1, hacts.2.endsClosed h.2⟩
  acts_self h := ⟨h.1, .rest⟩

theorem neutral_of_sameCalls {w w' : World ε} (h : World.SameCalls i w w') :
    (discipline ε i).Neutral w w' := by
  refine fun hinv g => ⟨h.1 ▸ hinv.1, ?_⟩
  rw [h.2]
  exact .rest

/-- No step of the program touches the calls of a connection. -/
def KeepsCalls (i : Nat) (p : Work ε α) : Prop := Keeps (World.SameCalls i) p

theorem KeepsCalls.neutral {p : Work ε α} (h : KeepsCalls i p) :
    Keeps (discipline ε i).Neutral p :=
  Keeps.mono (fun _ _ => neutral_of_sameCalls) h

theorem KeepsCalls.follows {p : Work ε α} (h : KeepsCalls i p) :
    Follows (discipline ε i) p g fun g' _ => g' = g :=
  h.neutral.follows

theorem KeepsCalls.then {p : Work ε α} {k : α → Work ε β} {Q : Party → β → Prop}
    (hp : KeepsCalls i p) (hk : ∀ a, Follows (discipline ε i) (k a) g Q) :
    Follows (discipline ε i) (p >>= k) g Q :=
  hp.follows.bind fun _ a hg => hg ▸ hk a

/-! ### Steps -/

theorem keepsCalls_onConnection {f : Connection → α × Connection}
    (h : ∀ c, (f c).2.calls = c.calls) :
    KeepsCalls i (Work.onConnection i f : Work ε α) :=
  Keeps.act fun w => World.sameCalls_setConnection (h (w.connection i))

theorem keepsCalls_update {f : Connection → Connection} (h : ∀ c, (f c).calls = c.calls) :
    KeepsCalls i (update (World.onConnection i f) : Work ε Unit) :=
  Keeps.update fun w => World.sameCalls_setConnection (h (w.connection i))

theorem keepsCalls_look {view : World ε → α} : KeepsCalls i (look view) :=
  Keeps.look fun _ => World.sameCalls_of_connections_eq rfl

/-- A step that leaves all connections alone. -/
theorem keepsCalls_act {step : World ε → α × World ε}
    (h : ∀ w, (step w).2.connections = w.connections) : KeepsCalls i (act step) :=
  Keeps.act fun w => World.sameCalls_of_connections_eq (h w)

theorem keepsCalls_await {deadline : Option Nat} {step : World ε → Option (α × World ε)}
    (h : ∀ w a w', step w = some (a, w') → w'.connections = w.connections) :
    KeepsCalls i (.await deadline step .done) :=
  Keeps.await fun w a w' hs => World.sameCalls_of_connections_eq (h w a w' hs)

theorem keepsCalls_inBackground {step : World ε → α × World ε}
    (h : ∀ w, (step w).2.connections = w.connections) : KeepsCalls i (Work.inBackground step) :=
  Work.keeps_inBackground (fun _ => World.sameCalls_of_connections_eq rfl)
    fun w => World.sameCalls_of_connections_eq (h w)

/-- A step on a connection is the action that it is on the calls. -/
theorem follows_onConnection {f : Connection → α × Connection} {Q : Party → α → Prop}
    (h : ∀ (Reads : Json → Prop) (c : Connection), c.calls.EndsClosed →
      ∃ g', Calls.Acts Reads g c.calls (f c).2.calls g' ∧ Q g' (f c).1) :
    Follows (discipline ε i) (Work.onConnection i f) g Q := by
  refine Follows.act fun w hinv => ?_
  obtain ⟨g', hacts, hQ⟩ := h (Reads i w (w.setConnection i (f (w.connection i)).2))
    (w.connection i) hinv.2
  refine ⟨g', ⟨?_, ?_⟩, hQ⟩
  · rw [World.length_setConnection]
    exact hinv.1
  · rw [World.connection_setConnection hinv.1]
    exact hacts

theorem follows_update {f : Connection → Connection} {Q : Party → Unit → Prop}
    (h : ∀ (Reads : Json → Prop) (c : Connection), c.calls.EndsClosed →
      ∃ g', Calls.Acts Reads g c.calls (f c).calls g' ∧ Q g' ()) :
    Follows (discipline ε i) (update (World.onConnection i f)) g Q := by
  change Follows (discipline ε i) (Work.onConnection i fun c => ((), f c)) g Q
  exact follows_onConnection h

theorem expiry_of_expired? {limit : Limit} {clock : Nat} {e : Failure}
    (h : limit.expired? clock = some e) : ∃ t, limit.expiry = some (t, e) := by
  obtain ⟨⟨t, e'⟩, hlimit, hle⟩ := Option.bind_eq_some_iff.1 h
  obtain ⟨-, heq⟩ := Option.ite_none_right_eq_some.1 hle
  exact ⟨t, Option.some.inj heq ▸ hlimit⟩

theorem follows_connection : Follows (discipline ε i) (Work.connection i) g fun g' c =>
    g' = g ∧ c.calls.EndsClosed :=
  Follows.act fun _ hinv => ⟨g, ⟨hinv.1, .rest⟩, rfl, hinv.2⟩

/-- A wait within a limit ends with its step, with the cancellation, or at the time limit. -/
theorem follows_within {limit : Limit} {step : World ε → Option (α × World ε)}
    {Q : Party → Except Failure α → Prop}
    (hstep : ∀ w a w', (discipline ε i).Inv w → step w = some (a, w') →
      ∃ g', (discipline ε i).Acts g w w' g' ∧ Q g' (.ok a))
    (hcancelled : Q g (.error .cancelled))
    (hexpired : ∀ t e, limit.expiry = some (t, e) → Q g (.error e)) :
    Follows (discipline ε i) (Work.within limit step) g Q := by
  refine Follows.await fun w r w' hinv hs => ?_
  split at hs
  · cases hs
    exact ⟨g, ⟨hinv.1, .rest⟩, hcancelled⟩
  · split at hs
    · next a w'' ha =>
      cases hs
      exact hstep w a w' hinv ha
    · obtain ⟨e, he, heq⟩ := Option.map_eq_some_iff.1 hs
      cases heq
      obtain ⟨t, ht⟩ := expiry_of_expired? he
      exact ⟨g, ⟨hinv.1, .rest⟩, hexpired t e ht⟩

/-- A step on a connection that may have to wait, if it does not touch the calls. -/
theorem acts_stepOn {step : Connection → Option (α × Connection)} {w w' : World ε} {a : α}
    (hkeep : ∀ c a c', step c = some (a, c') → c'.calls = c.calls)
    (hinv : (discipline ε i).Inv w) (hs : stepOn i step w = some (a, w')) :
    (discipline ε i).Acts g w w' g := by
  obtain ⟨⟨a', c'⟩, hc', heq⟩ := Option.map_eq_some_iff.1 hs
  cases heq
  exact neutral_of_sameCalls (World.sameCalls_setConnection (hkeep _ _ _ hc')) hinv g

/-! ### Sending -/

/-- The results of sending: a failure is none of the server's answers. -/
def Unanswered (g : Party) (g' : Party) (r : Except Failure α) : Prop :=
  g' = g ∧ ∀ e, r = .error e → ¬ e.IsAnswer

theorem not_isAnswer_of_isClosed {e : Failure} (h : e.IsClosed) : ¬ e.IsAnswer := by
  cases e <;> first | exact id | exact h.elim

theorem unanswered_error {e : Failure} (h : ¬ e.IsAnswer) :
    Unanswered g g (.error e : Except Failure α) :=
  ⟨rfl, fun _ he => Except.error.inj he ▸ h⟩

theorem keepsCalls_leave (ticket : Nat) :
    KeepsCalls i (update (World.onConnection i (leave ticket)) : Work ε Unit) :=
  keepsCalls_update fun _ => rfl

theorem keepsCalls_join : KeepsCalls i (Work.onConnection i join : Work ε Nat) :=
  keepsCalls_onConnection fun _ => rfl

/-- To wait for a report on what was sent, and leave the line if the wait is cut short. -/
theorem follows_report {ticket : Nat} {limit : Limit}
    {step : Connection → Option (Except Failure Unit × Connection)} (hlimit : limit.Silent)
    (hkeep : ∀ c r c', step c = some (r, c') → c'.calls = c.calls)
    (hreport : ∀ c e c', c.calls.EndsClosed → step c = some (.error e, c') → ¬ e.IsAnswer) :
    Follows (discipline ε i) (do
      match ← Work.within limit (stepOn i step) with
      | .ok outcome => return outcome
      | .error e =>
        update (World.onConnection i (leave ticket))
        return .error e) g (Unanswered g) := by
  have hwait : Follows (discipline ε i) (Work.within limit (stepOn i step)) g fun g' r =>
      g' = g ∧ ∀ e, (r = .error e ∨ r = .ok (.error e)) → ¬ e.IsAnswer := by
    refine follows_within (fun w r w' hinv hs => ?_) ⟨rfl, ?_⟩ fun t e ht => ⟨rfl, ?_⟩
    · refine ⟨g, acts_stepOn hkeep hinv hs, rfl, ?_⟩
      rintro e (he | he)
      · cases he
      · obtain ⟨⟨r', c'⟩, hc', heq⟩ := Option.map_eq_some_iff.1 hs
        cases heq
        cases he
        exact hreport _ e c' hinv.2 hc'
    · rintro e (he | he) <;> cases he
      exact id
    · rintro e' (he | he) <;> cases he
      exact hlimit t e ht
  refine hwait.bind fun g' r hr => ?_
  obtain ⟨rfl, hanswer⟩ := hr
  match r with
  | .ok outcome => exact ⟨rfl, fun e he => hanswer e (.inr (congrArg _ he))⟩
  | .error e =>
    exact (keepsCalls_leave ticket).then fun _ => unanswered_error (hanswer e (.inl rfl))

theorem follows_enqueue {ticket : Nat} {command : Command} {limit : Limit}
    (hlimit : limit.Silent) :
    Follows (discipline ε i) (enqueue i ticket command limit) g (Unanswered g) := by
  refine follows_report hlimit (fun c r c' h => ?_) fun c e c' hc h => ?_
  · unfold takeIn at h
    split at h
    · cases h
      rfl
    · obtain ⟨o, -, heq⟩ := Option.map_eq_some_iff.1 h
      cases heq
      rfl
  · unfold takeIn at h
    split at h
    · cases h
      exact not_isAnswer_of_isClosed (isClosed_closedError hc)
    · obtain ⟨o, -, heq⟩ := Option.map_eq_some_iff.1 h
      cases heq

theorem follows_send {frame : Json} {limit : Limit} (hlimit : limit.Silent) :
    Follows (discipline ε i) (send i frame limit) g (Unanswered g) := by
  refine keepsCalls_join.then fun ticket => ?_
  refine (follows_enqueue hlimit).bind fun g' r hr => ?_
  obtain ⟨rfl, hanswer⟩ := hr
  match r with
  | .error e => exact unanswered_error (hanswer e rfl)
  | .ok () =>
    refine follows_report hlimit (fun c r c' h => ?_) fun c e c' hc h => ?_
    · obtain ⟨⟨d, o⟩, -, heq⟩ := Option.map_eq_some_iff.1 h
      cases heq
      rfl
    · obtain ⟨⟨d, o⟩, -, heq⟩ := Option.map_eq_some_iff.1 h
      cases d with
      | written => cases heq
      | failed message => cases heq; exact id
      | dropped => cases heq; exact not_isAnswer_of_isClosed (isClosed_closedError hc)

end Connection

end LspClient
