import LspClient.Proofs.Connection.Frames
import LspClient.Proofs.Diagnostic.Waiting
import LspClient.Proofs.Program.Logs

/-!
# Diagnostics are fresh

The runs of one connection: clients wait for its diagnostics, the reader takes frames in, and
whatever else goes on publishes nothing. What was published is written down when the reader takes in
a frame that publishes (`Publication`). In every reachable state the version counts what was
published so far, and what is cached was published last for its URI, at its stamp (`Sound`). So a
wait that was given a floor, and returns in time, returns what was published last for its URI, and
after the floor was read.
-/

namespace LspClient.Diagnostics

open Program
open Crew (Rules Run Logged Log Move Moment Begun Choice movesOf ofState)
open DiagnosticsCache (Published Stamped Latest)
open Connection (Mild Later takeFrame reader)

variable {ε : Type} {i k : Nat}

/-- The crews of one connection. -/
abbrev WaitCrew (ε : Type) := Crew (World ε) Wait (Except Failure (List Diagnostic))

/-- Anybody may wait; beside the reader there may be any services that publish nothing. -/
def rules (ε : Type) (i : Nat) : Rules (World ε) Wait (Except Failure (List Diagnostic)) where
  program := Wait.program i
  Serves p := p = reader i ∨ Keeps (Mild i) p
  Outside := Mild i

/-- What a move publishes: the items of a frame that the reader is about to take in. -/
inductive Publication (i : Nat) (c : WaitCrew ε) : Actor → Published → Prop
  | frame {k : Nat} {body : Work ε Bool} {frame : Json} {p : Publish}
      (hk : c.services[k]? = some (body, takeFrame i frame)) (hp : Publishes frame p) :
      Publication i c (.service k) [(p.uri, p.items (c.state.connection i).name)]
  | nothing {a : Actor} (h : ∀ k body frame p, a = .service k →
      c.services[k]? = some (body, takeFrame i frame) → ¬ Publishes frame p) :
      Publication i c a []

theorem exists_publication (c : WaitCrew ε) (a : Actor) : ∃ new, Publication i c a new := by
  by_cases h : ∃ k body frame p, a = .service k ∧
      c.services[k]? = some (body, takeFrame i frame) ∧ Publishes frame p
  · obtain ⟨k, body, frame, p, rfl, hk, hp⟩ := h
    exact ⟨_, .frame hk hp⟩
  · refine ⟨[], .nothing fun k body frame p ha hk hp => h ⟨k, body, frame, p, ha, hk, hp⟩⟩

theorem Publication.of_client {c : WaitCrew ε} {new : Published}
    (h : Publication i c (.client k) new) : new = [] := by
  cases h
  rfl

/-! ### Who publishes -/

theorem receive_of_publishes {frame : Json} {p : Publish} (hp : Publishes frame p)
    (c : Connection) : ∃ cache, c.cache.Gains p.uri (p.items c.name) cache ∧
      (Connection.receive frame c).2 = { c with cache } := by
  obtain ⟨kind, hkind, hreceives⟩ := Connection.exists_receives frame
  obtain rfl : kind = .publish p := FrameKind.of_unique hkind hp
  have hc := hreceives c
  generalize Connection.receive frame c = r at hc ⊢
  cases hc with
  | published h => exact ⟨_, h, rfl⟩

theorem calm_receive {frame : Json} (hnone : ∀ p, ¬ Publishes frame p) (c : Connection) :
    Connection.Calm c (Connection.receive frame c).2 := by
  obtain ⟨kind, hkind, hreceives⟩ := Connection.exists_receives frame
  have hc := hreceives c
  generalize Connection.receive frame c = r at hc ⊢
  cases hc with
  | published h => exact absurd hkind (hnone _)
  | _ => exact .of_eq rfl rfl rfl

/-- Where a service may stand: it is the reader, or one that publishes nothing. -/
inductive Serving (i : Nat) : Work ε Bool → Prop
  | reader : Serving i (reader i)
  | frame (frame : Json) : Serving i (takeFrame i frame)
  | mild {p : Work ε Bool} (h : Keeps (Mild i) p) : Serving i p

variable {w w' : World ε} {p p' : Work ε Bool} {started : List (Work ε Bool)}

theorem mild_stopReading : Keeps (Mild i) (Connection.stopReading i : Work ε Unit) :=
  Connection.mild_parts.stopReading

/-- What the reader does about a frame that it has taken in publishes nothing more. -/
theorem keeps_received {received : Connection.Received} : Keeps (Mild i) (do
    match received with
    | .nothing => return true
    | .request r =>
      Program.fork (Connection.answer i r)
      return true
    | .response id outcome =>
      Connection.complete i id outcome
      return true : Work ε Bool) := by
  match received with
  | .nothing => exact Keeps.pure _
  | .request r => exact Keeps.bind Connection.mild_parts.answer.fork fun _ => Keeps.pure _
  | .response id outcome => exact Keeps.bind Connection.mild_parts.complete fun _ => Keeps.pure _

/-- A service goes on as one that serves, and starts such; nothing is published but by a frame that
is taken in. -/
theorem Serving.step (h : Serving i p) (hs : Step w p w' p' started) :
    Serving i p' ∧ (∀ q ∈ started, Serving i q) ∧
      (Mild i w w' ∨ ∃ frame, p = takeFrame i frame ∧
        w' = w.setConnection i (Connection.receive frame (w.connection i)).2) := by
  cases h with
  | reader =>
    rw [Connection.reader_eq] at hs
    obtain ⟨event, hevent, rfl, rfl⟩ := step_await_bind.1 hs
    refine ⟨?_, by simp, .inl (Connection.aside_nextEvent hevent).mild⟩
    match event with
    | .frame v => exact .frame v
    | .failed e =>
      change Serving i (if e.isRecoverable = true then _ else _)
      split
      · exact .mild (Keeps.pure _)
      · exact .mild (Keeps.bind mild_stopReading fun _ => Keeps.pure _)
    | .ended => exact .mild (Keeps.bind mild_stopReading fun _ => Keeps.pure _)
  | frame frame =>
    obtain ⟨hw, rfl, rfl⟩ := step_act_bind.1 hs
    exact ⟨.mild keeps_received, by simp, .inr ⟨frame, rfl, hw⟩⟩
  | mild h =>
    obtain ⟨hw, hp', hstarted⟩ := h.step .refl hs
    exact ⟨.mild hp', fun q hq => .mild (hstarted q hq), .inl hw⟩

/-! ### Waits -/

theorem mild_wait (q : Wait) : Keeps (Mild i) (q.program i : Work ε _) := by
  have hpolls (deadline rounds : Nat) :
      Keeps (Mild i) (waitUntilFresh i q.uri deadline q.floor q.token rounds : Work ε _) := by
    induction rounds with
    | zero => exact Keeps.bind (Keeps.look .refl) fun _ => Keeps.pure _
    | succ rounds ih =>
      refine Keeps.bind (Keeps.look .refl) fun c => Keeps.bind (Keeps.look .refl) fun _ =>
        Keeps.bind (Keeps.look .refl) fun now => ?_
      split
      · exact Keeps.pure _
      · refine Keeps.bind (Keeps.await fun w r w' hs => ?_) fun r => ?_
        · split at hs
          · cases hs
            exact .refl w
          · split at hs <;> cases hs
            exact .refl w
        · match r with
          | .error e => exact Keeps.pure _
          | .ok () => exact ih
  exact Keeps.bind (Keeps.look .refl) fun now => hpolls _ _

/-! ### What holds in every reachable state -/

variable {w₀ : World ε} {start c c' : WaitCrew ε} {a : Actor}
  {log : Log (World ε) (String × List Diagnostic)}
  {moments : List (Crew.Moment (World ε))} {published new : Published}

structure Sound (i : Nat) (published : Published) (c : WaitCrew ε) : Prop where
  there : i < c.state.connections.length
  stamped : Stamped published (c.state.connection i).cache

theorem client_keeps {q : Wait} {p : Work ε (Except Failure (List Diagnostic))}
    (run : Run (rules ε i) (ofState w₀) moments c) (hk : c.clients[k]? = some (q, p)) :
    Keeps (Mild i) p :=
  run.client_has (H := fun _ p => Keeps (Mild i) p) mild_wait
    (fun _ _ _ _ _ _ hs hp => (hp.step .refl hs).2.1) rfl hk

theorem services_serve (run : Run (rules ε i) (ofState w₀) moments c) :
    ∀ e ∈ c.services, Serving i e.1 ∧ Serving i e.2 := by
  refine run.services_have (fun p hp => ?_) (fun _ _ _ _ _ hs hp => ?_)
    (fun _ _ _ _ _ _ _ _ run hk hs q hq => ?_) nofun
  · rcases hp with rfl | hp
    · exact .reader
    · exact .mild hp
  · obtain ⟨hp', hstarted, -⟩ := hp.step hs
    exact ⟨hp', hstarted⟩
  · exact .mild (((client_keeps run hk).step .refl hs).2.2 q hq)

/-- A frame that publishes goes to the cache. -/
theorem Sound.publish {frame : Json} {p : Publish} (h : Sound i published c)
    (hp : Publishes frame p) (hstate : c'.state =
      c.state.setConnection i (Connection.receive frame (c.state.connection i)).2) :
    Later i c.state c'.state ∧
      Sound i (published ++ [(p.uri, p.items (c.state.connection i).name)]) c' := by
  obtain ⟨cache, hgains, heq⟩ := receive_of_publishes hp (c.state.connection i)
  rw [heq] at hstate
  have hthere : i < c'.state.connections.length := by
    rw [hstate, World.length_setConnection]
    exact h.there
  have hconnection : c'.state.connection i = { c.state.connection i with cache } := by
    rw [hstate, World.connection_setConnection h.there]
  refine ⟨⟨?_, fun _ => hthere, fun _ halive => ?_⟩, hthere, ?_⟩
  · rw [hstate]
    exact Nat.le_refl _
  · rw [hconnection]
    exact halive
  · rw [hconnection]
    exact h.stamped.gains hgains

/-- Time goes on with every move, and the state is sound with what the move publishes. -/
theorem Sound.move (h : Sound i published c)
    (run : Run (rules ε i) (ofState w₀) moments c) (hmove : Move (rules ε i) c a c')
    (hnew : Publication i c a new) :
    Later i c.state c'.state ∧ Sound i (published ++ new) c' := by
  have hmild (hw : Mild i c.state c'.state) (hnone : new = []) :
      Later i c.state c'.state ∧ Sound i (published ++ new) c' := by
    rw [hnone, List.append_nil]
    exact ⟨hw.toLater, hw.there h.there, h.stamped.loses (hw.cache h.there)⟩
  -- only the reader, at a frame that publishes, adds to the cache
  cases hmove with
  | enter => exact hmild (.refl _) hnew.of_client
  | client hk hs => exact hmild ((client_keeps run hk).step .refl hs).1 hnew.of_client
  | outside hw =>
    refine hmild hw ?_
    cases hnew
    rfl
  | serve =>
    refine hmild (.refl _) ?_
    cases hnew with
    | frame hk => exact absurd (List.getElem?_eq_some_iff.1 hk).1 (Nat.lt_irrefl _)
    | nothing => rfl
  | again hk =>
    refine hmild (.refl _) ?_
    cases hnew with
    | frame hk' =>
      rw [hk] at hk'
      cases hk'
    | nothing => rfl
  | service hk hs =>
    cases hnew with
    | frame hk' hp =>
      rw [hk] at hk'
      cases hk'
      exact h.publish hp (step_act_bind.1 hs).1
    | nothing hnone =>
      obtain ⟨-, -, hw | ⟨frame, rfl, hw⟩⟩ :=
        (services_serve run _ (List.mem_of_getElem? hk)).2.step hs
      · exact hmild hw rfl
      · refine hmild ?_ rfl
        rw [hw]
        exact .setConnection (calm_receive (fun p => hnone _ _ frame p rfl hk) _)

/-- The runs of a connection, with what was published. -/
abbrev Publishing (i : Nat) (start : WaitCrew ε) (log : Log (World ε) (String × List Diagnostic))
    (c : WaitCrew ε) : Prop :=
  Logged (rules ε i) (Publication i) start log c

theorem sound_of_publishing (hi : i < w₀.connections.length)
    (hempty : (w₀.connection i).cache = .empty) (h : Publishing i (ofState w₀) log c) :
    Sound i log.notes c := by
  induction h with
  | nil =>
    refine ⟨hi, ?_⟩
    change Stamped [] (w₀.connection i).cache
    rw [hempty]
    exact DiagnosticsCache.stamped_empty
  | move run hmove hnew ih =>
    simpa using (ih.move run.run hmove hnew).2

/-! ### What a wait returns -/

variable {q : Wait} {deadline rounds : Nat} {next : WaitCrew ε}
  {r p p' : Work ε (Except Failure (List Diagnostic))}

/-- In the course of a run the client looked at the cache, when this was the world; since then it
has made so many moves. -/
def Looked (i k : Nat) (q : Wait) (deadline : Nat) (start : WaitCrew ε)
    (log : Log (World ε) (String × List Diagnostic)) (c : WaitCrew ε) (n : Nat) (r : World ε) :
    Prop :=
  ∃ read seen rounds earlier later, Publishing i start earlier read ∧
    read.clients[k]? = some (q, q.polls i deadline (rounds + 1)) ∧
    Move (rules ε i) read (.client k) seen ∧ Publishing i seen later c ∧
    movesOf (.client k) later.moments = n ∧
    log = earlier ++ (⟨.client k, read.state, seen.state⟩, []) :: later ∧ read.state = r

theorem Looked.move {n : Nat} {r : World ε} (h : Looked i k q deadline start log c n r)
    (hmove : Move (rules ε i) c a c') (hnew : Publication i c a new) :
    Looked i k q deadline start (log ++ [(⟨a, c.state, c'.state⟩, new)]) c'
      (n + if a = .client k then 1 else 0) r := by
  obtain ⟨read, seen, rounds, earlier, later, hearlier, hk, hlook, hlater, rfl, rfl, hr⟩ := h
  exact ⟨read, seen, rounds, earlier, _, hearlier, hk, hlook, hlater.move hmove hnew, by simp,
    List.append_assoc _ _ _, hr⟩

/-- A wait stands where it may stand, whatever the others do. -/
theorem stands_of_publishing (hi : i < w₀.connections.length)
    (hempty : (w₀.connection i).cache = .empty)
    {log₀ : Log (World ε) (String × List Diagnostic)}
    (h₀ : Publishing i (ofState w₀) log₀ start) (hk : start.clients[k]? = some (q, p))
    (hp : q.Stands i deadline (Looked i k q deadline start [] start) start.state p)
    (h : Publishing i start log c) (hq : c.clients[k]? = some (q, p')) :
    q.Stands i deadline (Looked i k q deadline start log c) c.state p' := by
  refine h.client_has (I := fun log c p => q.Stands i deadline
    (Looked i k q deadline start log c) c.state p) hk hp ?_ ?_ hq
  · intro log c a c' new p ha h hstands hmove hnew
    have hsound := sound_of_publishing hi hempty (h₀.trans h)
    exact hstands.later (fun n _ hr => by simpa [ha] using hr.move hmove hnew) hsound.there
      (hsound.move (h₀.trans h).run hmove hnew).1
  · intro log c c' new p p' started h hk hstands hs hmove hnew
    have hsound := sound_of_publishing hi hempty (h₀.trans h)
    have hlater := (hsound.move (h₀.trans h).run hmove hnew).1
    obtain ⟨-, ⟨rounds, rfl, henough, rfl⟩ | hstands'⟩ := hstands.step
      (fun n _ hr => by simpa using hr.move hmove hnew) hs
    · have hlooked : Looked i k q deadline start
          (log ++ [(⟨.client k, c.state, c'.state⟩, new)]) c' 0 c.state :=
        ⟨c, c', rounds, log, [], h, hk, hmove, .nil, rfl, by rw [hnew.of_client], rfl⟩
      exact (Wait.Stands.looked hlooked henough).later (fun _ _ h => h) hsound.there hlater
    · exact hstands'.later (fun _ _ hr => hr) hsound.there hlater

/-- A wait that has begun in the course of a run stands where it may stand. -/
theorem stands_of_begun (hi : i < w₀.connections.length)
    (hempty : (w₀.connection i).cache = .empty)
    {log₀ : Log (World ε) (String × List Diagnostic)} {begun : WaitCrew ε}
    (h₀ : Publishing i (ofState w₀) log₀ begun) (hk : begun.clients[k]? = some (q, q.program i))
    (hmove : Move (rules ε i) begun (.client k) next)
    (h : Publishing i next log c) (hq : c.clients[k]? = some (q, p')) :
    q.Stands i (begun.state.clock + q.timeout)
      (Looked i k q (begun.state.clock + q.timeout) next log c) c.state p' := by
  obtain ⟨p, started, hs, hnext⟩ := hmove.of_client hk
  rw [Wait.program_eq] at hs
  obtain ⟨hw, rfl, -⟩ := step_act_bind.1 hs
  obtain ⟨new, hnew⟩ := exists_publication (i := i) begun (.client k)
  refine stands_of_publishing hi hempty (h₀.move hmove hnew) hnext ?_ h hq
  rw [hw]
  exact .round (Wait.enough_first _ _)

/-- The client is about to look at the cache. -/
def Looking (i k : Nat) (q : Wait) (deadline : Nat) (c : WaitCrew ε) : Prop :=
  ∃ rounds, c.clients[k]? = some (q, q.polls i deadline (rounds + 1))

/-- The client looks at the cache at `read`, and not again by the end of the run. -/
structure LastLook (i k : Nat) (q : Wait) (deadline : Nat) (read seen : WaitCrew ε)
    (moments : List (Moment (World ε))) (c : WaitCrew ε) : Prop where
  looks : Looking i k q deadline read
  move : Move (rules ε i) read (.client k) seen
  run : Run (rules ε i) seen moments c
  last : ∀ earlier later mid, Run (rules ε i) seen earlier mid → Run (rules ε i) mid later c →
    moments = earlier ++ later → ¬ Looking i k q deadline mid

theorem since_of_run {cached : Option CachedDiagnostics}
    (hk : start.clients[k]? = some (q, q.asksAlive i deadline rounds cached))
    (run : Run (rules ε i) start moments c) : ∃ p, c.clients[k]? = some (q, p) ∧
      q.Since i deadline cached (movesOf (.client k) moments) p := by
  obtain ⟨log, rfl, h⟩ := run.exists_logged (exists_publication (i := i))
  obtain ⟨p, hp⟩ := h.client_there hk
  refine ⟨p, hp, h.client_has (I := fun log _ p =>
    q.Since i deadline cached (movesOf (.client k) log.moments) p) hk .asksAlive ?_ ?_ hp⟩
  · intro log c a c' new p ha _ hsince _ _
    simpa [ha] using hsince
  · intro log c c' new p p' started _ _ hsince hs _ _
    simpa using hsince.step hs

/-- A look is the last one if the client has made one move since. -/
theorem lastLook_of_moves {read seen : WaitCrew ε}
    (hk : read.clients[k]? = some (q, q.polls i deadline (rounds + 1)))
    (hmove : Move (rules ε i) read (.client k) seen) (run : Run (rules ε i) seen moments c)
    (hone : movesOf (.client k) moments ≤ 1) : LastLook i k q deadline read seen moments c := by
  refine ⟨⟨rounds, hk⟩, hmove, run, ?_⟩
  rintro earlier later mid hearlier - rfl ⟨rounds', hmid⟩
  obtain ⟨p, started, hs, hseen⟩ := hmove.of_client hk
  rw [Wait.polls_succ] at hs
  obtain ⟨-, rfl, -⟩ := step_act_bind.1 hs
  rw [Crew.movesOf_append] at hone
  obtain ⟨p, hp, hsince⟩ := since_of_run hseen hearlier
  rw [hmid] at hp
  cases hp
  exact hsince.ne_polls (by omega) mid.state rfl

/-- What a wait has done that returns at `c`, in a run from `start`. It began at `begun`, and looked
at the cache for the last time at `read`: it returns what was cached there. If it returns in time,
and the connection is alive, this is what was published last for its URI in that run. -/
inductive Returns (i k : Nat) (q : Wait) (items : List Diagnostic) (start : WaitCrew ε) :
    Log (World ε) (String × List Diagnostic) → WaitCrew ε → Prop
  | intro {begun next read seen c : WaitCrew ε}
      {before between after : Log (World ε) (String × List Diagnostic)}
      (hbefore : Publishing i start before begun)
      (hbegun : begun.clients[k]? = some (q, q.program i))
      (hmove : Move (rules ε i) begun (.client k) next)
      (hbetween : Publishing i next between read)
      (hlook : LastLook i k q (begun.state.clock + q.timeout) read seen after.moments c)
      (hafter : Publishing i seen after c)
      (hitems : items = Wait.answer (q.sees i read.state))
      (hfresh : c.state.clock < begun.state.clock + q.timeout →
        (c.state.connection i).isAlive = true →
        ∃ n, Latest (before.notes ++ between.notes) q.uri items n) :
      Returns i k q items start
        (before ++ (⟨.client k, begun.state, next.state⟩, []) ::
          (between ++ (⟨.client k, read.state, seen.state⟩, []) :: after)) c

/-- The wait took its first step at `begun`. -/
def BeganAt (i k : Nat) (q : Wait) (start : WaitCrew ε)
    (log : Log (World ε) (String × List Diagnostic)) (c begun : WaitCrew ε) : Prop :=
  ∃ next earlier later, Publishing i start earlier begun ∧
    begun.clients[k]? = some (q, q.program i) ∧ Move (rules ε i) begun (.client k) next ∧
    Publishing i next later c ∧ log = earlier ++ (⟨.client k, begun.state, next.state⟩, []) :: later

/-- What is said of a run from `start`, where `old` had been published, to `c`. -/
structure Account (i : Nat) (old : Published) (start : WaitCrew ε)
    (log : Log (World ε) (String × List Diagnostic)) (c : WaitCrew ε) : Prop where
  version : (c.state.connection i).cache.version = (old ++ log.notes).length
  latest : ∀ uri e, (c.state.connection i).cache.get? uri = some e →
    Latest (old ++ log.notes) uri e.items e.stamp
  stamp_le : ∀ uri e, (c.state.connection i).cache.get? uri = some e →
    e.stamp ≤ (c.state.connection i).cache.version
  stamp_ne : ∀ uri uri' e e', uri ≠ uri' → (c.state.connection i).cache.get? uri = some e →
    (c.state.connection i).cache.get? uri' = some e' → e.stamp ≠ e'.stamp
  /-- The floor of a wait was read at `start`. -/
  returns : ∀ k q p c' items, start.clients.length ≤ k →
    q.floor = some (start.state.connection i).cache.version →
    c.clients[k]? = some (q, p) → Move (rules ε i) c (.client k) c' →
    c'.clients[k]? = some (q, pure (.ok items)) → Returns i k q items start log c
  /-- A wait that is over does return. -/
  finishes : ∀ k q p, start.clients.length ≤ k → c.clients[k]? = some (q, p) →
    p.result? = none → p = q.program i ∨ ∃ begun, BeganAt i k q start log c begun ∧
      (Wait.IsOver i (begun.state.clock + q.timeout) c.state →
        ∀ steps started p' w', p.Traces (Later i) c.state steps started p' w' →
          q.Finishes (begun.state.clock + q.timeout) steps w' p')

theorem not_step_program {s : World ε} {items : List Diagnostic}
    (h : Step s (q.program i) w' (pure (.ok items)) started) : False := by
  rw [Wait.program_eq] at h
  obtain ⟨-, heq, -⟩ := step_act_bind.1 h
  rw [Wait.polls_succ] at heq
  cases heq

/-- What is fresh was published since its floor was read. -/
theorem latest_since {old : Published} {cache : DiagnosticsCache} {uri : String}
    (hstamped : Stamped (old ++ new) cache)
    (hfresh : DiagnosticsCache.isFresh (cache.get? uri) (some old.length) = true) :
    ∃ n, Latest new uri (Wait.answer (cache.get? uri)) n := by
  cases he : cache.get? uri with
  | none =>
    rw [he] at hfresh
    cases hfresh
  | some e =>
    rw [he] at hfresh
    exact ⟨_, (hstamped.latest uri e he).of_lt (by simpa [DiagnosticsCache.isFresh] using hfresh)⟩

theorem returns_of_publishing {log₀ : Log (World ε) (String × List Diagnostic)}
    {items : List Diagnostic} (hi : i < w₀.connections.length)
    (hempty : (w₀.connection i).cache = .empty) (h₀ : Publishing i (ofState w₀) log₀ start)
    (h : Publishing i start log c) (hk : start.clients.length ≤ k)
    (hfloor : q.floor = some (start.state.connection i).cache.version)
    (hp : c.clients[k]? = some (q, p)) (hmove : Move (rules ε i) c (.client k) c')
    (hp' : c'.clients[k]? = some (q, pure (.ok items))) : Returns i k q items start log c := by
  obtain ⟨p₁, started, hs, hp₁⟩ := hmove.of_client hp
  obtain rfl : p₁ = pure (.ok items) := by
    rw [hp'] at hp₁
    cases hp₁
    rfl
  rcases h.begun hk hp with rfl | hbegun
  · exact (not_step_program hs).elim
  · cases hbegun with
    | @intro begun next _ before _ _ hbefore hbegun hfirst hnew hlater =>
      obtain rfl := hnew.of_client
      -- the wait returns what it saw at its last look
      obtain ⟨r, hlooked, rfl, hwhy⟩ :=
        (stands_of_begun hi hempty (h₀.trans hbefore) hbegun hfirst hlater hp).last hs
      obtain ⟨read, seen, rounds, between, after, hbetween, hread, hlook, hafter, hone, rfl, rfl⟩ :=
        hlooked
      have hlast := lastLook_of_moves hread hlook hafter.run (Nat.le_of_eq hone)
      refine .intro hbefore hbegun hfirst hbetween hlast hafter rfl fun hclock halive => ?_
      -- it ends with a fresh entry, at the end of the connection or at the deadline
      rcases hwhy with hfresh | hended | hover
      · have hsound := sound_of_publishing hi hempty
          ((h₀.trans (hbefore.move hfirst hnew)).trans hbetween)
        have hstamped : Stamped (log₀.notes ++ (before.notes ++ between.notes))
            (read.state.connection i).cache := by
          simpa using hsound.stamped
        refine latest_since hstamped ?_
        rwa [hfloor, (sound_of_publishing hi hempty h₀).stamped.version] at hfresh
      · rw [hended] at halive
        cases halive
      · omega

/-- In every run of a connection that began with nothing cached, in which a floor is read at any
moment. -/
theorem fresh_since_floor {moments₀ : List (Crew.Moment (World ε))}
    (hi : i < w₀.connections.length) (hempty : (w₀.connection i).cache = .empty)
    (run₀ : Run (rules ε i) (ofState w₀) moments₀ start)
    (run : Run (rules ε i) start moments c) :
    ∃ log₀ log, log₀.moments = moments₀ ∧ Publishing i (ofState w₀) log₀ start ∧
      log.moments = moments ∧ Publishing i start log c ∧ Account i log₀.notes start log c := by
  obtain ⟨log₀, hmoments₀, h₀⟩ := run₀.exists_logged (exists_publication (i := i))
  obtain ⟨log, hmoments, h⟩ := run.exists_logged (exists_publication (i := i))
  have hsound : Sound i (log₀.notes ++ log.notes) c := by
    rw [← Crew.Log.notes_append]
    exact sound_of_publishing hi hempty (h₀.trans h)
  refine ⟨log₀, log, hmoments₀, h₀, hmoments, h, {
    version := hsound.stamped.version
    latest := hsound.stamped.latest
    stamp_le := fun _ _ he => hsound.stamped.stamp_le he
    stamp_ne := fun _ _ _ _ hne he he' heq => hne (hsound.stamped.stamp_inj he he' heq)
    returns := fun k q p c' items hk hfloor hp hmove hp' =>
      returns_of_publishing hi hempty h₀ h hk hfloor hp hmove hp'
    finishes := fun k q p hk hp hgoing => ?_ }⟩
  -- a wait that goes on has begun, so it stands in one of its rounds
  refine (h.begun hk hp).imp_right fun hbegun => ?_
  cases hbegun with
  | intro hbefore hbegun hfirst hnew hlater =>
    obtain rfl := hnew.of_client
    have hstands := stands_of_begun hi hempty (h₀.trans hbefore) hbegun hfirst hlater hp
    exact ⟨_, ⟨_, _, _, hbefore, hbegun, hfirst, hlater, rfl⟩, fun hover steps started p' w' ht =>
      hstands.finishes hgoing hsound.there hover ht⟩

/-! ### A file that is published again -/

def diagnosticOf (message : String) : Json :=
  let origin := Json.object [("line", .nat 0), ("character", .nat 0)]
  .object [("range", .object [("start", origin), ("end", origin)]), ("message", .str message)]

/-- The server publishes diagnostics for a file. -/
def publishing (uri : String) (diagnostics : List Json) : Choice (rules Unit 0) :=
  let frame := Message.ofNotification Method.publishDiagnostics
    (some (.object [("uri", .str uri), ("diagnostics", .arr diagnostics)]))
  .outside (World.onPipe 0 fun p => p.push (Frame.write frame)) fun _ =>
    Connection.Aside.mild (.onPipe fun _ h => h)

def pausing : Choice (rules Unit 0) :=
  .outside (fun w => { w with clock := w.clock + pollInterval }) fun _ =>
    ⟨⟨Nat.le_add_right _ _, id, fun _ => id⟩, fun _ => .refl _⟩

/-- A file was published before the floor is read. -/
def beforeFloor : List (Choice (rules Unit 0)) :=
  [.serve (reader 0) (.inl rfl), publishing "file:///a" []] ++
  List.replicate 3 (.service 0)

def waitForSecond : Wait := ⟨"file:///a", 1000, some 1, Token.never⟩

/-- The wait sleeps when the file is published again. -/
def sinceFloor : List (Choice (rules Unit 0)) :=
  .enter waitForSecond :: List.replicate 4 (.client 0) ++
  publishing "file:///a" [diagnosticOf "new"] :: List.replicate 3 (.service 0) ++
  pausing :: List.replicate 3 (.client 0)

/-- The crew when the floor is read. -/
def floorRead : WaitCrew Unit := (Crew.play beforeFloor ([], ofState Connection.alone)).2

theorem fresh_since_floor_secondPublish :
    (Crew.play (sinceFloor ++ [.client 0]) ([], floorRead)).2.clients.map
        (fun e => (e.2.result?.bind Except.toOption).map (List.map Diagnostic.message)) =
      [some ["new"]] ∧
    ∃ log₀ log,
      log₀.moments = (Crew.play beforeFloor ([], ofState Connection.alone)).1 ∧
      Publishing 0 (ofState Connection.alone) log₀ floorRead ∧
      log.moments = (Crew.play sinceFloor ([], floorRead)).1 ∧
      Publishing 0 floorRead log (Crew.play sinceFloor ([], floorRead)).2 ∧
      Account 0 log₀.notes floorRead log (Crew.play sinceFloor ([], floorRead)).2 :=
  ⟨by decide +kernel, fresh_since_floor (show 0 < Connection.alone.connections.length by decide) rfl
    (Crew.run_play beforeFloor .nil) (Crew.run_play sinceFloor .nil)⟩

end LspClient.Diagnostics
