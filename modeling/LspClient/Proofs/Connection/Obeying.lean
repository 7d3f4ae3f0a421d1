import LspClient.Proofs.Connection.Discipline

/-!
# What the programs of a connection do to its calls

Every program of a connection follows its discipline. A request that is over has either given its
call up, or has an outcome that it collected (`Returned`). The reader and whoever ends the
connection take calls out and complete them; nobody ends while there are calls to complete.
-/

namespace LspClient.Connection

open Program Calls

variable {ε α β : Type} {i : Nat} {g : Party}

/-! ### Requests -/

/-- The result of a call is what the server answered. -/
def IsReply : Outcome → Prop
  | .ok _ => True
  | .error e => e.IsAnswer

/-- Where a party is left when its call for a method returns. -/
structure Returned (method : String) (p : Party) (r : Outcome) : Prop where
  stops : ∀ id m, p.call ≠ .waiting id m
  reply : IsReply r → ∃ id, p.call = .ended id method (some r)
  held : p.held = []

theorem Returned.of_ne {method : String} {p : Party} {s : Stage} {e : Failure} (hp : p.IsAt s)
    (hs : ∀ id m, s ≠ .waiting id m) (he : ¬ e.IsAnswer) : Returned method p (.error e) :=
  ⟨by rw [hp.1]; exact hs, fun h => absurd h he, hp.2⟩

theorem Returned.of_ended {id : Nat} {method : String} {p : Party} {r : Outcome}
    (hp : p.IsAt (.ended id method (some r))) : Returned method p r :=
  ⟨by rw [hp.1]; exact nofun, fun _ => ⟨id, hp.1⟩, hp.2⟩

theorem Returned.isFree {method : String} {p : Party} {r : Outcome} (h : Returned method p r) :
    p.IsFree := by
  refine ⟨fun hwaits => ?_, h.held⟩
  cases hcall : p.call with
  | waiting id m => exact h.stops id m hcall
  | _ => rw [hcall] at hwaits; exact hwaits

/-- Where a party is left by the wait for the outcome of its call. -/
def Awaited (id : Nat) (method : String) (p : Party) : Except Failure Outcome → Prop
  | .ok outcome => p.IsAt (.ended id method (some outcome))
  | .error e => p.IsAt (.waiting id method) ∧ ¬ e.IsAnswer

/-- Where a party is left when the exchange of its call is over. -/
def Exchanged (id : Nat) (method : String) (p : Party) (r : Outcome) : Prop :=
  p.IsAt (.ended id method (some r)) ∨
    (p.IsAt (.waiting id method) ∧ ∃ e, r = .error e ∧ ¬ e.IsAnswer)

theorem follows_exchange {id : Nat} {method : String} {frame : Json} {limit : Limit}
    (hlimit : limit.Silent) (hg : g.IsAt (.waiting id method)) :
    Follows (discipline ε i) (exchange i id frame limit) g (Exchanged id method) := by
  refine (follows_send hlimit).bind fun g' r hr => ?_
  obtain ⟨rfl, hanswer⟩ := hr
  cases r with
  | error e => exact .inr ⟨hg, e, rfl, hanswer e rfl⟩
  | ok =>
    have hwait : Follows (discipline ε i) (Work.within limit (stepOn i (collect id))) g'
        (Awaited id method) := by
      refine follows_within (fun w o w' hinv hs => ?_) ⟨hg, fun h => h⟩ fun t e ht =>
        ⟨hg, hlimit t e ht⟩
      obtain ⟨⟨o', c'⟩, hc', heq⟩ := Option.map_eq_some_iff.1 hs
      obtain ⟨⟨o'', calls⟩, hcalls, heq'⟩ := Option.map_eq_some_iff.1 hc'
      cases heq
      cases heq'
      refine ⟨{ g' with call := .ended id method (some o) }, ⟨?_, ?_⟩, rfl, hg.2⟩
      · rw [World.length_setConnection]
        exact hinv.1
      · rw [World.connection_setConnection hinv.1]
        exact .collect hg.1 hcalls
    refine hwait.bind fun p r hr => ?_
    cases r with
    | ok outcome => exact .inl hr
    | error e => exact .inr ⟨hr.1, e, rfl, hr.2⟩

theorem follows_giveUp {id : Nat} {method : String} {e : Failure} (hg : g.call.Was id method) :
    Follows (discipline ε i) (giveUp i id e) g fun g' _ =>
      g' = { g with call := g.call.giveUp } := by
  have habandon : Follows (discipline ε i) (Work.onConnection i (abandon id)) g
      fun g' _ => g' = { g with call := g.call.giveUp } :=
    follows_onConnection fun _ _ _ => ⟨_, .abandon hg, rfl⟩
  refine habandon.bind fun g' wasPending hg' => ?_
  split
  · have hoffer : KeepsCalls i (update (World.onConnection i (offerCancel id)) : Work ε Unit) :=
      keepsCalls_update fun _ => rfl
    refine hoffer.follows.mono fun g'' _ h => ?_
    rw [h, hg']
  · exact hg'

theorem follows_numberCall {now : Nat} (hg : g.IsAt .idle) :
    Follows (discipline ε i) (Work.onConnection i (numberCall now)) g
      fun g' id => g'.IsAt (.numbered id) :=
  follows_onConnection fun _ _ _ => ⟨_, .number hg.1, rfl, hg.2⟩

theorem follows_register {id : Nat} {method : String} (hg : g.IsAt (.numbered id)) :
    Follows (discipline ε i) (Work.onConnection i (register id method)) g fun g' r =>
      match r with
      | .ok () => g'.IsAt (.waiting id method)
      | .error e => g'.IsAt (.numbered id) ∧ e.IsClosed := by
  refine follows_onConnection fun Reads c hc => ?_
  unfold register
  split
  · next calls hcalls => exact ⟨_, .register hg.1 hcalls, rfl, hg.2⟩
  · next e he =>
    refine ⟨g, .rest, hg, ?_⟩
    unfold Calls.register at he
    split at he
    · cases he
      exact isClosed_closedError hc
    · cases he

/-- A call that did not come to its result is given up. -/
theorem follows_conclude {id : Nat} {method : String} {r : Outcome} :
    Exchanged id method g r → Follows (discipline ε i) (match r with
      | .ok result => return .ok result
      | .error e => do
        giveUp i id e
        return .error e : Work ε Outcome) g (Returned method) := by
  intro hg
  match r with
  | .ok result =>
    rcases hg with hover | ⟨-, e, he, -⟩
    · exact .of_ended hover
    · cases he
  | .error e =>
    rcases hg with hover | ⟨hwaiting, e', he, hanswer⟩
    · refine (follows_giveUp (by rw [hover.1]; exact ⟨rfl, rfl⟩)).bind fun g' _ hg' => ?_
      subst hg'
      exact .of_ended ⟨by rw [hover.1]; rfl, hover.2⟩
    · cases he
      refine (follows_giveUp (by rw [hwaiting.1]; exact ⟨rfl, rfl⟩)).bind fun g' _ hg' => ?_
      subst hg'
      exact .of_ne (s := .ended id method none) ⟨by rw [hwaiting.1]; rfl, hwaiting.2⟩ nofun hanswer

theorem follows_call {method : String} {params : Option Json} {token : Token}
    {timeout : Option Nat} (hg : g.IsAt .idle) :
    Follows (discipline ε i) (call i method params token timeout) g (Returned method) := by
  refine keepsCalls_look.then fun cancelled => ?_
  split
  · exact .of_ne hg nofun fun h => h
  refine keepsCalls_look.then fun uptime => ?_
  refine (follows_numberCall hg).bind fun g₁ id hg₁ => ?_
  refine (follows_register hg₁).bind fun g₂ r hr => ?_
  match r with
  | .error e =>
    obtain ⟨hg₂, he⟩ := hr
    exact .of_ne hg₂ nofun (not_isAnswer_of_isClosed he)
  | .ok () =>
    refine keepsCalls_look.then fun started => ?_
    refine keepsCalls_look.then fun c => ?_
    have hlimit : Limit.Silent ⟨token, some (started + timeout.getD c.requestTimeout,
        .timeout method (timeout.getD c.requestTimeout * 1000))⟩ := by
      intro t e h
      cases h
      exact fun h => h
    refine (follows_exchange hlimit hr).bind fun g₃ r hr => ?_
    exact follows_conclude hr

theorem follows_request {method : String} {params : Option Json} {token : Token}
    {timeout : Option Nat} (hg : g.IsAt .idle) :
    Follows (discipline ε i) (request i method params token timeout) g (Returned method) := by
  refine follows_connection.bind fun g' c hc => ?_
  obtain ⟨rfl, hclosed⟩ := hc
  unfold usable
  split
  · next e he =>
    split at he
    · cases he
    · cases he
      exact .of_ne hg nofun (not_isAnswer_of_isClosed (isClosed_closedError hclosed))
  · exact follows_call hg

/-! ### Notifications, and answers to the server -/

theorem follows_tell {method : String} {params : Option Json} :
    Follows (discipline ε i) (tell i method params) g (Unanswered g) := by
  have htouch : KeepsCalls i (update fun w : World ε => w.onConnection i (touch w.uptime)) :=
    Keeps.update fun w => World.sameCalls_setConnection rfl
  exact htouch.then fun _ => follows_send Limit.silent_never

theorem follows_notify {method : String} {params : Option Json} :
    Follows (discipline ε i) (notify i method params) g fun g' _ => g' = g := by
  refine keepsCalls_look.then fun c => ?_
  split
  · exact rfl
  · exact follows_tell.mono fun _ _ h => h.1

theorem keepsCalls_handle {settings : Option Json} {method : String} {params : Option Json} :
    KeepsCalls i (Workspace.handle settings method params : Work ε (Except ResponseError Json)) :=
  Workspace.handle_of_parts (F := fun p => KeepsCalls i p) Keeps.pure fun _ =>
    ⟨Keeps.pure, Keeps.bind, fun _ => keepsCalls_inBackground fun _ => rfl,
      fun path content => keepsCalls_inBackground (Workspace.connections_writeText path content)⟩

theorem follows_answer {r : ServerRequest} :
    Follows (discipline ε i) (answer i r) g fun g' _ => g' = g := by
  refine keepsCalls_look.then fun c => ?_
  refine keepsCalls_handle.then fun outcome => ?_
  refine keepsCalls_join.then fun ticket => ?_
  refine (follows_enqueue Limit.silent_never).bind fun g' _ hr => ?_
  exact hr.1

/-! ### The end of a connection -/

/-- To complete the calls that one holds first. -/
theorem follows_failAll {e : Failure} {t : Table Nat String} {rest : List (Nat × Outcome)}
    (hg : g.held = failing e t ++ rest) :
    Follows (discipline ε i) (failAll i e t) g fun g' _ => g' = { g with held := rest } := by
  induction t generalizing g with
  | nil =>
    change g = { g with held := rest }
    rw [← show g.held = rest from hg]
  | cons x t ih =>
    have hcomplete : Follows (discipline ε i) (complete i x.1 (.error e)) g fun g' _ =>
        g' = { g with held := failing e t ++ rest } :=
      follows_update fun Reads c hc => ⟨_, .complete hg, rfl⟩
    refine hcomplete.bind fun g' _ hg' => ?_
    subst hg'
    exact ih rfl

/-- A sweep sees to it that there is an error, and holds all calls with it when it closes. -/
theorem follows_sweep (hg : ¬ g.call.Waits) :
    Follows (discipline ε i) (sweep i) g fun g' _ => g'.held = g.held := by
  refine keepsCalls_look.then fun now => ?_
  have hwait : KeepsCalls i (waitUntil (now + stderrGrace) fun w : World ε =>
      if (w.connection i).stderrDone || now + stderrGrace ≤ w.clock then some ((), w)
      else none) := by
    refine keepsCalls_await fun w a w' h => ?_
    obtain ⟨-, heq⟩ := Option.ite_none_right_eq_some.1 h
    cases heq
    rfl
  refine hwait.then fun _ => ?_
  have hrecord : Follows (discipline ε i) (update (World.onConnection i recordEnd)) g
      fun g' _ => g' = { g with notice := .recorded } :=
    follows_update fun Reads c hc => ⟨_, .recordEnd, rfl⟩
  refine hrecord.bind fun g' _ hg' => ?_
  subst hg'
  have hlearn : Follows (discipline ε i) (Work.connection i) { g with notice := .recorded }
      fun g' c => g' = { g with notice := .learned c.calls.closedError } ∧ c.calls.EndsClosed :=
    Follows.act fun _ hinv => ⟨_, ⟨hinv.1, .learn rfl⟩, rfl, hinv.2⟩
  refine hlearn.bind fun g' c hc => ?_
  obtain ⟨rfl, hclosed⟩ := hc
  have hclose : Follows (discipline ε i) (Work.onConnection i close)
      { g with notice := .learned c.calls.closedError } fun p t =>
        p.held = failing c.calls.closedError t ++ g.held :=
    follows_onConnection fun Reads c' _ =>
      ⟨_, .close rfl (isClosed_closedError hclosed) hg, rfl⟩
  refine hclose.bind fun p t hp => ?_
  refine (follows_failAll hp).mono fun p' _ hp' => ?_
  rw [hp']

/-! ### Services -/

theorem calls_takePublish (params : Json) (c : Connection) :
    (c.takePublish params).calls = c.calls := by
  unfold takePublish
  split <;> rfl

/-- A frame that was taken in is dropped, or the call that it answers is taken out. -/
theorem acts_receive {Reads : Json → Prop} {frame : Json} {c : Connection}
    (hg : g.frame = some frame) (hwaits : ¬ g.call.Waits) :
    ∃ g', Calls.Acts Reads g c.calls (receive frame c).2.calls g' ∧
      match (receive frame c).1 with
      | .response id outcome => g' = { g with frame := none, held := (id, outcome) :: g.held }
      | _ => g' = { g with frame := none } := by
  unfold receive
  split
  · exact ⟨_, .pass, rfl⟩
  · next id outcome hclass =>
    unfold takeResponse
    cases hpending : c.calls.pending.get? id with
    | none =>
      rw [Calls.take, hpending]
      exact ⟨_, .pass, rfl⟩
    | some method =>
      have hacts : Calls.Acts Reads g c.calls (c.calls.take id).2
          { g with frame := none, held := (id, respond method outcome) :: g.held } :=
        .take hg hclass hpending hwaits
      rw [Calls.take, hpending]
      exact ⟨_, hacts, rfl⟩
  · exact ⟨_, .pass, rfl⟩
  · split
    · split
      · refine ⟨_, ?_, rfl⟩
        rw [calls_takePublish]
        exact .pass
      · exact ⟨_, .pass, rfl⟩
    · exact ⟨_, .pass, rfl⟩

theorem connections_nextEvent {w w' : World ε} {event : Frame.Event}
    (h : nextEvent i w = some (event, w')) : w'.connections = w.connections := by
  simp only [nextEvent] at h
  split at h
  · cases h; rfl
  · cases h; rfl
  · cases h; rfl
  · cases h

theorem follows_nextEvent :
    Follows (discipline ε i) (wait (nextEvent i)) g fun g' event => match event with
      | .frame v => g' = { g with frame := some v }
      | _ => g' = g := by
  refine Follows.await fun w event w' hinv h => ?_
  have hsame : World.SameCalls i w w' :=
    World.sameCalls_of_connections_eq (connections_nextEvent h)
  cases event with
  | frame v =>
    refine ⟨_, ⟨hsame.1 ▸ hinv.1, ?_⟩, rfl⟩
    rw [hsame.2]
    exact .read h
  | failed e => exact ⟨g, neutral_of_sameCalls hsame hinv g, rfl⟩
  | ended => exact ⟨g, neutral_of_sameCalls hsame hinv g, rfl⟩

theorem follows_stopReading (hg : ¬ g.call.Waits) :
    Follows (discipline ε i) (stopReading i) g fun g' _ => g'.held = g.held := by
  refine (follows_sweep hg).bind fun g' _ hg' => ?_
  have hclose : KeepsCalls i (update fun w : World ε =>
      w.onPipe (w.connection i).input Pipe.closeSink) := keepsCalls_act fun w => rfl
  refine hclose.follows.mono fun g'' _ hg'' => ?_
  rw [hg'', hg']

theorem follows_reader :
    Follows (discipline ε i) (reader i) Party.idle (discipline ε i).AtRest := by
  refine follows_nextEvent.bind fun g event hg => ?_
  -- each frame is dealt with in full before the next one is read
  match event with
  | .frame v =>
    subst hg
    have hreceive : Follows (discipline ε i) (Work.onConnection i (receive v))
        { Party.idle with frame := some v } fun p received => match received with
          | .response id outcome => p = { Party.idle with held := [(id, outcome)] }
          | _ => p = Party.idle :=
      follows_onConnection fun Reads c _ => acts_receive rfl id
    refine hreceive.bind fun p received hp => ?_
    match received with
    | .nothing => exact hp ▸ (discipline ε i).atRest_idle true
    | .request r =>
      subst hp
      have hanswer : Follows (discipline ε i) (answer i r) Party.idle
          fun g' _ => (discipline ε i).Ends g' :=
        follows_answer.mono fun g' _ hg' => by
          rw [hg']
          rfl
      exact hanswer.fork.bind fun p _ hp => hp ▸ (discipline ε i).atRest_idle true
    | .response id outcome =>
      have hcomplete : Follows (discipline ε i) (complete i id outcome) p
          fun p' _ => p' = Party.idle :=
        follows_update fun Reads c _ => ⟨_, .complete (congrArg Party.held hp), by rw [hp]; rfl⟩
      exact hcomplete.bind fun p' _ hp' => hp' ▸ (discipline ε i).atRest_idle true
  | .failed e =>
    change Follows (discipline ε i) (if e.isRecoverable = true then _ else _) g _
    split
    · exact hg ▸ (discipline ε i).atRest_idle true
    · exact (follows_stopReading (hg ▸ id)).bind fun p _ hp => ⟨hp.trans (hg ▸ rfl), nofun⟩
  | .ended => exact (follows_stopReading (hg ▸ id)).bind fun p _ hp => ⟨hp.trans (hg ▸ rfl), nofun⟩

theorem sameCalls_writeSome {w w' : World ε} {s : WriterStep} {bytes : List UInt8}
    {ticket : Option Nat} (h : writeSome i bytes ticket w = some (s, w')) :
    World.SameCalls i w w' := by
  simp only [writeSome] at h
  split at h
  · cases h
    exact World.sameCalls_setConnection rfl
  · split at h
    · cases h
    · cases h
      refine World.sameCalls_setConnection (w := w.onPipe _ _) ?_
      split <;> rfl

theorem sameCalls_writerStep {w w' : World ε} {s : WriterStep}
    (h : writerStep i w = some (s, w')) : World.SameCalls i w w' := by
  simp only [writerStep] at h
  split at h
  · exact sameCalls_writeSome h
  · split at h
    · cases h
    · cases h
      exact World.sameCalls_setConnection rfl
    · cases h
      exact World.sameCalls_setConnection (w := w.onPipe _ _) rfl

theorem follows_writer :
    Follows (discipline ε i) (writer i) Party.idle (discipline ε i).AtRest := by
  have hwait : KeepsCalls i (wait (writerStep i) : Work ε WriterStep) :=
    Keeps.await fun w a w' h => sameCalls_writerStep h
  refine hwait.then fun s => ?_
  match s with
  | .goOn => exact (discipline ε i).atRest_idle true
  | .finished => exact (discipline ε i).atRest_idle false
  | .broken =>
    refine (follows_sweep id).bind fun p _ hp => ?_
    have hstop : KeepsCalls i (stopWriting i : Work ε Unit) :=
      Keeps.update fun w => World.sameCalls_setConnection rfl
    exact hstop.then fun _ => ⟨hp, nofun⟩

theorem calls_setTail (c : Connection) (tail : List UInt8) :
    { c with stderrTail := tail }.calls = c.calls := rfl

theorem keepsCalls_takeErrors (part : List UInt8) :
    KeepsCalls i (update (World.onConnection i (takeErrors part)) : Work ε Unit) :=
  keepsCalls_update fun c => calls_setTail c _

theorem follows_errorReader {errors : Channel} :
    Follows (discipline ε i) (errorReader i errors) Party.idle (discipline ε i).AtRest := by
  have hread : KeepsCalls i (errors.read 1024 : Work ε (List UInt8)) := by
    cases errors with
    | pipe j =>
      refine keepsCalls_await fun w a w' h => ?_
      simp only [Channel.takeFrom] at h
      split at h
      · obtain ⟨-, heq⟩ := Option.ite_none_right_eq_some.1 h
        cases heq
        rfl
      · cases h
        rfl
    | file at_ => exact Keeps.pure _
    | null => exact Keeps.pure _
  refine hread.then fun part => ?_
  match part with
  | [] =>
    have hend : KeepsCalls i (update (World.onConnection i endErrors) : Work ε Unit) :=
      keepsCalls_update fun _ => rfl
    exact hend.then fun _ => (discipline ε i).atRest_idle false
  | b :: part =>
    exact (keepsCalls_takeErrors _).then fun _ => (discipline ε i).atRest_idle true

/-! ### Shutting down -/

theorem follows_askToExit (hg : g.IsAt .idle) :
    Follows (discipline ε i) (askToExit i) g fun g' _ => g'.IsFree := by
  refine (follows_call hg).bind fun g' r hr => ?_
  match r with
  | .ok _ => exact follows_tell.bind fun p _ hp => by rw [hp.1]; exact hr.isFree
  | .error _ => exact hr.isFree

theorem keepsCalls_endProcess : KeepsCalls i (endProcess i : Work ε Unit) := by
  refine Keeps.bind (keepsCalls_onConnection fun _ => rfl) fun child => ?_
  match child with
  | none => exact Keeps.pure _
  | some child =>
    have hjoin : KeepsCalls i (Process.joinWithin child shutdownTimeout : Work ε Bool) := by
      refine Keeps.bind keepsCalls_look fun now => keepsCalls_await fun w a w' h => ?_
      split at h
      · cases h
        rfl
      · obtain ⟨-, heq⟩ := Option.ite_none_right_eq_some.1 h
        cases heq
        rfl
    refine Keeps.bind hjoin fun ended => ?_
    split
    · exact Keeps.pure _
    · refine Keeps.bind (keepsCalls_act fun _ => rfl) fun _ => ?_
      refine Keeps.bind (keepsCalls_await fun w a w' h => ?_) fun _ => Keeps.pure _
      obtain ⟨_, -, heq⟩ := Option.map_eq_some_iff.1 h
      cases heq
      rfl

/-- The end of a shutdown, whether the server was asked to exit or not. -/
theorem follows_windUp (hg : g.IsFree) : Follows (discipline ε i) (do
    closeStream i
    endProcess i
    sweep i) g fun g' _ => g'.held = [] := by
  have hclose : Follows (discipline ε i) (closeStream i) g fun g' _ => g' = g := by
    refine keepsCalls_join.then fun ticket => ?_
    exact (follows_enqueue Limit.silent_never).bind fun _ _ hr => hr.1
  refine hclose.bind fun g' _ hg' => ?_
  subst hg'
  exact keepsCalls_endProcess.then fun _ => (follows_sweep hg.1).mono fun _ _ h => h.trans hg.2

theorem follows_shutdown :
    Follows (discipline ε i) (shutdown i) Party.idle fun g' _ => g'.held = [] := by
  have hbegin : Follows (discipline ε i) (Work.onConnection i beginClosing) Party.idle
      fun g' _ => g' = Party.idle :=
    follows_onConnection fun Reads c _ => ⟨_, .beginClosing, rfl⟩
  refine hbegin.bind fun g already hg => ?_
  subst hg
  split
  -- someone else has begun to shut down, and this caller only waits for the end
  · refine Follows.mono (fun g' _ hg' => by rw [hg']; rfl) (KeepsCalls.follows ?_)
    refine keepsCalls_await fun w a w' h => ?_
    obtain ⟨-, heq⟩ := Option.ite_none_right_eq_some.1 h
    cases heq
    rfl
  refine keepsCalls_look.then fun c => ?_
  -- the calls are taken out and failed before the server is asked to exit
  have hclosed : Failure.IsClosed (.connectionClosed c.calls.server none) := trivial
  have hdrain : Follows (discipline ε i) (Work.onConnection i drain) Party.idle fun p t =>
      p.call = .idle ∧ p.held = failing (.connectionClosed c.calls.server none) t ++ [] :=
    follows_onConnection fun Reads c' _ => ⟨_, .drain hclosed id, rfl, rfl⟩
  refine hdrain.bind fun p t hp => ?_
  have hfail : Follows (discipline ε i) (failAll i (.connectionClosed c.calls.server none) t) p
      fun p' _ => p'.IsAt .idle :=
    (follows_failAll hp.2).mono fun p' _ hp' => by
      rw [hp']
      exact ⟨hp.1, rfl⟩
  refine hfail.bind fun p _ hp => ?_
  refine keepsCalls_look.then fun c' => ?_
  change Follows (discipline ε i) (if c'.calls.closed = true then _ else _) p _
  split
  · exact follows_windUp (hp.isFree id)
  · exact (follows_askToExit hp).bind fun p' _ hp' => follows_windUp hp'

end LspClient.Connection
