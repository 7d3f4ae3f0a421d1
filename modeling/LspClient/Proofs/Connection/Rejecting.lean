import LspClient.Proofs.Connection.Ranking

/-!
# Rejecting before closing

A shutdown sets the flag that keeps new requests out, takes out all calls that are registered, and
completes them with an error, before it asks the server to exit, closes the stream and sees to the
end of the process. `RejectedFirst` says what this comes to: from the step on that takes the calls
out nobody but the shutdown itself registers a call or queues a request, and the calls that were
taken out have their error before anything is done to the outbox or to the process.

Whether a request may be made is asked only once, before it waits for anything. So this holds if at
that step no request is on the way from its check to the queue (`rejected`). One that is registers
its call after all others were rejected, and may still wait for its response when the stream is
closed (`overtaken_not_rejected`).
-/

namespace LspClient.Connection

open Calls Crew

variable {ε : Type}

section

variable (i : Nat)

/-- The service is a shutdown that has set the flag, and takes the calls out in its next step. -/
structure AboutToReject (k : Nat) (name : String) (moments : Moments ε)
    (c : Crew (World ε) Ask Outcome) : Prop where
  began : ∃ m ∈ moments, m.actor = .service k ∧ BeginsClosing i m
  next : ∃ body, c.services[k]? = some (body, Program.once (reject i name))

/-- A request has not begun, or is over, or has left the line. -/
def NoneOnTheWay (moments : Moments ε) (c : Crew (World ε) Ask Outcome) : Prop :=
  ∀ n ask p, c.clients[n]? = some (ask, p) →
    p = (strictRules ε i).program ask ∨ (∃ r, p = .done r) ∨
      ∃ m ∈ moments, m.actor = .client n ∧ LeavesLine i m

/-- The moment is none of the stream and the process of the connection. -/
def SparesServer (m : Moment (World ε)) : Prop :=
  (m.after.connection i).outbox = (m.before.connection i).outbox ∧
    (m.after.connection i).process = (m.before.connection i).process

/-- Since `queue` was what was queued, and no call was registered, nobody asks but the service `k`,
and that asks for the shutdown only. -/
structure OnlyShutdownAsks (k : Nat) (queue : List Command) (later : Moments ε) (x : Connection) :
    Prop where
  asks : ∀ m ∈ later, AsksOnly (fun method => method = Method.shutdown ∧ m.actor = .service k)
    (m.before.connection i) (m.after.connection i)
  registered : ∀ id method, x.calls.pending.get? id = some method →
    method = Method.shutdown ∧ ∃ m ∈ later, m.actor = .service k ∧ Registers i m id
  queued : ∀ cmd ∈ x.outbox.queue,
    cmd ∈ queue ∨ ∀ method, cmd.Asks method → method = Method.shutdown

/-- What holds after the calls of `c₀` were taken out by the service `k`. -/
structure RejectedFirst (k : Nat) (e : Failure) (c₀ : Crew (World ε) Ask Outcome)
    (later : Moments ε) (c : Crew (World ε) Ask Outcome) : Prop
    extends OnlyShutdownAsks i k (c₀.state.connection i).outbox.queue later
      (c.state.connection i) where
  /-- The calls have their error before the service does anything to the server. -/
  completed : ∀ before m after, later = before ++ m :: after → m.actor = .service k →
    ¬ SparesServer i m → ∀ id, (c₀.state.connection i).calls.pending.get? id ≠ none →
    ∃ m' ∈ before, m'.actor = .service k ∧ CompletesWith i m' id (.error e)

end

variable {i k : Nat} {name : String} {e : Failure} {moments earlier later : Moments ε}
  {w : World ε} {c c' c₀ c₁ : Crew (World ε) Ask Outcome} {P P' : Actor → Standing} {a : Actor}

/-! ### After the calls were taken out -/

/-- The standing of one who goes nowhere any more once the flag is set. -/
def Standing.IsQuiet : Standing → Prop
  | .idle | .asking | .past => True
  | _ => False

section Does

variable {g g' : Standing} {x x' : Connection} {held : List (Nat × Outcome)}

theorem Does.quiet (h : Does g x x' g') (hg : g.IsQuiet) (hx : x.calls.closing = true) :
    AsksNothing x x' ∧ g'.IsQuiet := by
  cases h with
  | rest => exact ⟨.refl _, hg⟩
  | serve h | wait h => exact ⟨h, trivial⟩
  | check h | begin h => cases hx.symm.trans h
  | ask | leave | drain | complete | close => cases hg

theorem Does.closer_asksOnly (h : Does (.closer held) x x' g') :
    AsksOnly (· = Method.shutdown) x x' := by
  cases h with
  | rest => exact .refl _
  | drain => exact .of_calls rfl fun _ _ h => by cases h
  | complete => exact .of_calls rfl fun _ _ h => h
  | close h => exact h

/-- As long as a call is held that was taken out, nothing else is touched. -/
theorem Does.spares {y : Nat × Outcome} (h : Does (.closer (y :: held)) x x' g') :
    x'.outbox = x.outbox ∧ x'.process = x.process := by
  cases h with
  | rest | complete => exact ⟨rfl, rfl⟩

/-- A call that is held no longer was completed. -/
theorem Does.completes {held' : List (Nat × Outcome)} {y : Nat × Outcome}
    (h : Does (.closer held) x x' (.closer held')) (hy : y ∈ held) (hnot : y ∉ held') :
    x'.calls.settled = x.calls.settled ++ [y] := by
  cases h with
  | rest => exact absurd hy hnot
  | drain | close => cases hy
  | complete =>
    rcases List.mem_cons.1 hy with rfl | hy
    · rfl
    · exact absurd hy hnot

end Does

theorem OnlyShutdownAsks.move {queue : List Command}
    (h : OnlyShutdownAsks i k queue later (c.state.connection i))
    (hasks : AsksOnly (fun method => method = Method.shutdown ∧ a = .service k)
      (c.state.connection i) (c'.state.connection i)) :
    OnlyShutdownAsks i k queue (later ++ [⟨a, c.state, c'.state⟩]) (c'.state.connection i) := by
  have hlast : (⟨a, c.state, c'.state⟩ : Moment (World ε)) ∈ later ++ [⟨a, c.state, c'.state⟩] :=
    List.mem_append_right _ (List.mem_singleton_self _)
  refine ⟨fun m hm => ?_, fun id method hid => ?_, fun cmd hcmd => ?_⟩
  · rcases List.mem_append.1 hm with hm | hm
    · exact h.asks m hm
    · obtain rfl := List.mem_singleton.1 hm
      exact hasks
  -- a call that was not pending before the move is registered by it, and so by the shutdown
  · cases hbefore : (c.state.connection i).calls.pending.get? id with
    | none =>
      rcases hasks.pending id method hid with hsome | ⟨hmethod, ha⟩
      · cases hbefore.symm.trans hsome
      · refine ⟨hmethod, _, hlast, ha, hbefore, ?_⟩
        rw [callsAfter, hid]
        exact Option.some_ne_none _
    | some method' =>
      obtain ⟨hmethod', m, hm, hregisters⟩ := h.registered id method' hbefore
      refine ⟨?_, m, List.mem_append_left _ hm, hregisters⟩
      rcases hasks.pending id method hid with hsome | ⟨hmethod, -⟩
      · rw [hbefore] at hsome
        cases hsome
        exact hmethod'
      · exact hmethod
  · rcases hasks.queue cmd hcmd with hcmd | hcmd
    · exact h.queued cmd hcmd
    · exact .inr fun method hmethod => (hcmd method hmethod).1

/-- What is true from the step on in which `k` took the calls out, which are to end as in
`drained`. -/
structure Rejecting (i k : Nat) (drained : List (Nat × Outcome)) (queue : List Command)
    (later : Moments ε) (P : Actor → Standing) (c : Crew (World ε) Ask Outcome) : Prop where
  staged : Staged (standing ε i) (fun _ _ _ => True) P c
  flag : (c.state.connection i).calls.closing = true
  quiet : ∀ a, a ≠ .service k → (P a).IsQuiet
  held : ∃ held, P (.service k) = .closer held ∧ ∀ y ∈ drained,
    y ∈ held ∨ ∃ m ∈ later, m.actor = .service k ∧ CompletesWith i m y.1 y.2
  asked : OnlyShutdownAsks i k queue later (c.state.connection i)

section Rejecting

variable {drained : List (Nat × Outcome)} {queue : List Command}

theorem Rejecting.held_append (h : Rejecting i k drained queue later P c)
    (m : Moment (World ε)) : ∃ held, P (.service k) = .closer held ∧ ∀ y ∈ drained,
      y ∈ held ∨ ∃ m' ∈ later ++ [m], m'.actor = .service k ∧ CompletesWith i m' y.1 y.2 := by
  obtain ⟨held, hP, hheld⟩ := h.held
  refine ⟨held, hP, fun y hy => (hheld y hy).imp_right fun ⟨m', hm', hcompletes⟩ => ?_⟩
  exact ⟨m', List.mem_append_left _ hm', hcompletes⟩

/-- A step of the shutdown. -/
theorem Rejecting.goes_on {g : Standing} (h : Rejecting i k drained queue later P c)
    (hdoes : Does (P (.service k)) (c.state.connection i) (c'.state.connection i) g)
    (hstaged : Staged (standing ε i) (fun _ _ _ => True)
      (Function.update P (.service k) g) c') :
    Rejecting i k drained queue (later ++ [⟨.service k, c.state, c'.state⟩])
      (Function.update P (.service k) g) c' := by
  obtain ⟨held, hP, hheld⟩ := h.held
  rw [hP] at hdoes
  obtain ⟨held', rfl⟩ := hdoes.of_closer
  refine ⟨hstaged, hdoes.closing h.flag, fun b hb => ?_, ⟨held', ?_, fun y hy => ?_⟩,
    h.asked.move (hdoes.closer_asksOnly.mono fun _ hm => ⟨hm, rfl⟩)⟩
  · rw [Function.update_of_ne hb]
    exact h.quiet b hb
  · rw [Function.update_self]
  · rcases hheld y hy with hy | ⟨m, hm, hcompletes⟩
    · by_cases hy' : y ∈ held'
      · exact .inl hy'
      · exact .inr ⟨_, List.mem_append_right _ (List.mem_singleton_self _), rfl,
          hdoes.completes hy hy'⟩
    · exact .inr ⟨m, List.mem_append_left _ hm, hcompletes⟩

/-- A step of anybody else. -/
theorem Rejecting.stands {g : Standing} (h : Rejecting i k drained queue later P c)
    (ha : a ≠ .service k) (hg : g.IsQuiet)
    (hasks : AsksNothing (c.state.connection i) (c'.state.connection i))
    (hstaged : Staged (standing ε i) (fun _ _ _ => True) (Function.update P a g) c') :
    Rejecting i k drained queue (later ++ [⟨a, c.state, c'.state⟩]) (Function.update P a g) c' := by
  refine ⟨hstaged, hasks.closing.trans h.flag, fun b hb => ?_, ?_,
    h.asked.move (hasks.mono fun _ => False.elim)⟩
  · by_cases hba : b = a
    · subst hba
      rwa [Function.update_self]
    · rw [Function.update_of_ne hba]
      exact h.quiet b hb
  · rw [Function.update_of_ne ha.symm]
    exact h.held_append _

theorem Rejecting.move (h : Rejecting i k drained queue later P c)
    (hmove : Move (strictRules ε i) c a c') :
    ∃ P', Rejecting i k drained queue (later ++ [⟨a, c.state, c'.state⟩]) P' c' := by
  obtain ⟨P', hgoes, hstaged⟩ := hmove.staged (obeys_strictRules ε i) h.staged
  cases hgoes with
  | acts hacts =>
    by_cases ha : a = .service k
    · subst ha
      exact ⟨_, h.goes_on hacts.2 hstaged⟩
    · obtain ⟨hasks, hg⟩ := hacts.2.quiet (h.quiet a ha) h.flag
      exact ⟨_, h.stands ha hg hasks hstaged⟩
  | enters hs =>
    have hasks : AsksNothing (c.state.connection i) (c'.state.connection i) := by
      rw [hs]
      exact .refl _
    exact ⟨_, h.stands (g := .asking) nofun trivial hasks hstaged⟩
  | hands _ hhands => exact hhands.elim

theorem exists_rejecting (h : Rejecting i k drained queue [] P c₁)
    (run : Run (strictRules ε i) c₁ later c) :
    ∃ P', Rejecting i k drained queue later P' c := by
  induction run with
  | nil => exact ⟨P, h⟩
  | move run hmove ih =>
    obtain ⟨P', h'⟩ := ih
    exact h'.move hmove

/-- Before the shutdown touches the server, the calls have ended. -/
theorem Rejecting.completed (h : Rejecting i k drained queue later P c)
    (hmove : Move (strictRules ε i) c (.service k) c')
    (hserver : ¬ SparesServer i ⟨.service k, c.state, c'.state⟩) {y : Nat × Outcome}
    (hy : y ∈ drained) : ∃ m ∈ later, m.actor = .service k ∧ CompletesWith i m y.1 y.2 := by
  obtain ⟨P', hgoes, -⟩ := hmove.staged (obeys_strictRules ε i) h.staged
  obtain ⟨held, hP, hheld⟩ := h.held
  cases hgoes with
  | acts hacts =>
    have hdoes := hacts.2
    rw [hP] at hdoes
    cases held with
    | nil => exact (hheld y hy).resolve_left List.not_mem_nil
    | cons x held => exact absurd hdoes.spares hserver
  | hands _ hhands => exact hhands.elim

end Rejecting

/-! ### The step that takes the calls out -/

/-- A request that is not on the way may be taken for one that has not asked, or has done so. -/
theorem Standings.quiet_client (h : Standings i earlier P c₀) (hnone : NoneOnTheWay i earlier c₀)
    {n : Nat} {ask : Ask} {p : Work ε Outcome} (hn : c₀.clients[n]? = some (ask, p)) :
    ∃ g : Standing, g.IsQuiet ∧ p.Follows (standing ε i) g fun _ _ => True := by
  rcases hnone n ask p hn with rfl | ⟨r, rfl⟩ | ⟨m, hm, hactor, hleaves⟩
  · exact ⟨.asking, trivial, (obeys_strictRules ε i).program ask⟩
  · exact ⟨.past, trivial, trivial⟩
  · refine ⟨.past, trivial, ?_⟩
    rw [← h.left m hm n hactor hleaves]
    exact h.staged.clients.follows n ask p hn

theorem Standings.quiet_clients (h : Standings i earlier P c₀)
    (hnone : NoneOnTheWay i earlier c₀) : ∃ stage : Nat → Standing, (∀ n, (stage n).IsQuiet) ∧
      Lineup (standing ε i) (fun _ _ _ => True) stage c₀.clients := by
  have hstage (n : Nat) : ∃ g : Standing, g.IsQuiet ∧ (c₀.clients.length ≤ n → g = .idle) ∧
      ∀ ask p, c₀.clients[n]? = some (ask, p) → p.Follows (standing ε i) g fun _ _ => True := by
    cases hn : c₀.clients[n]? with
    | none => exact ⟨.idle, trivial, fun _ => rfl, nofun⟩
    | some x =>
      obtain ⟨g, hg, hfollows⟩ := h.quiet_client hnone hn
      have hlt := (List.getElem?_eq_some_iff.1 hn).1
      refine ⟨g, hg, fun hle => absurd hlt (Nat.not_lt.2 hle), fun ask p hp => ?_⟩
      cases hp
      exact hfollows
  choose stage hquiet hidle hfollows using hstage
  exact ⟨stage, hquiet, hfollows, hidle⟩

/-- No other service has set the flag. -/
theorem Standings.quiet_service {held : List (Nat × Outcome)} {j : Nat}
    (h : Standings i earlier P c₀) (hk : P (.service k) = .closer held) (hj : j ≠ k) :
    (P (.service j)).IsQuiet := by
  have hnot := h.services j
  cases hP : P (.service j) with
  | idle => trivial
  | closer held' => exact absurd (Actor.service.inj (h.closer_unique _ _ _ _ hP hk)) hj
  | asking | ahead | past =>
    rw [hP] at hnot
    exact absurd trivial hnot

/-- The stages of clients and services, put together. -/
def standingsOf (clients services : Nat → Standing) : Actor → Standing
  | .client n => clients n
  | .service j => services j
  | .outside => .idle

/-- The next step takes the calls out, and to complete them is what comes then. -/
theorem step_once_reject {w w' : World ε} {p : Work ε Bool} {started : List (Work ε Bool)}
    (h : Program.Step w (Program.once (reject i name)) w' p started) :
    w' = w.setConnection i (drain (w.connection i)).2 ∧
      p = Program.once (do
        failAll i (.connectionClosed name none) (w.connection i).calls.pending
        windUp i) ∧ started = [] :=
  Program.step_act_bind.1 (show Program.Step w (Work.onConnection i drain >>= fun t =>
    Program.once do failAll i (.connectionClosed name none) t; windUp i) w' p started from h)

theorem Standings.rejects (h : Standings i earlier P c₀) (hnext : AboutToReject i k name earlier c₀)
    (hnone : NoneOnTheWay i earlier c₀) (hmove : Move (strictRules ε i) c₀ (.service k) c₁) :
    ∃ P', Rejecting i k
      (failing (.connectionClosed name none) (c₀.state.connection i).calls.pending)
      (c₀.state.connection i).outbox.queue [] P' c₁ := by
  obtain ⟨body, hk⟩ := hnext.next
  obtain ⟨m, hm, hactor, hbegins⟩ := hnext.began
  obtain ⟨held, hP⟩ := h.began m hm hbegins
  rw [hactor] at hP
  obtain ⟨stage, hquiet, hlineup⟩ := h.quiet_clients hnone
  rcases hmove.service_step hk with hdone | ⟨p, s, started, hstep, rfl⟩
  · cases hdone
  -- the step that rejects takes all pending calls at once
  obtain ⟨rfl, rfl, rfl⟩ := step_once_reject hstep
  have hi : i < c₀.state.connections.length := h.staged.inv
  have hconnection : (c₀.state.setConnection i (drain (c₀.state.connection i)).2).connection i =
      (drain (c₀.state.connection i)).2 := World.connection_setConnection hi
  let held₁ := failing (.connectionClosed name none) (c₀.state.connection i).calls.pending
  refine ⟨standingsOf stage (Function.update (P ∘ Actor.service) k (.closer held₁)),
    ⟨?_, hlineup, ?_, rfl⟩, ?_, fun a ha => ?_, ⟨held₁, ?_, fun y hy => .inl hy⟩,
    nofun, fun id method hid => ?_, fun cmd hcmd => .inl ?_⟩
  · change i < (World.setConnection ..).connections.length
    rwa [World.length_setConnection]
  · rw [show fresh ([] : List (Work ε Bool)) = [] from rfl, List.append_nil]
    exact h.staged.services.set hk (renews_of_over (does_rejected _ _).once)
  · rw [hconnection]
    exact h.flag _ _ hP
  · match a with
    | .client n => exact hquiet n
    | .outside => trivial
    | .service j =>
      have hj : j ≠ k := fun hj => ha (congrArg _ hj)
      rw [standingsOf, Function.update_of_ne hj]
      exact h.quiet_service hP hj
  · rw [standingsOf, Function.update_self]
  · rw [hconnection] at hid
    cases hid
  · rwa [hconnection] at hcmd

/-- If no request is on the way when a shutdown takes the calls out, then no other request is
registered or queued from then on, and all that were are rejected before the server is told to go,
however everybody moves. -/
theorem rejected (hi : i < w.connections.length)
    (hearlier : Run (strictRules ε i) (Crew.ofState w) earlier c₀)
    (hnext : AboutToReject i k name earlier c₀) (hnone : NoneOnTheWay i earlier c₀)
    (hmove : Move (strictRules ε i) c₀ (.service k) c₁)
    (hlater : Run (strictRules ε i) c₁ later c) :
    RejectedFirst i k (.connectionClosed name none) c₀ later c := by
  obtain ⟨P, h⟩ := exists_standings hi hearlier
  obtain ⟨P₁, h₁⟩ := h.rejects hnext hnone hmove
  obtain ⟨P', h'⟩ := exists_rejecting h₁ hlater
  refine ⟨h'.asked, fun before m after heq hactor hserver id hid => ?_⟩
  subst heq
  obtain ⟨a, c₂, c₃, rfl, hbefore, hm, -⟩ := hlater.split
  subst hactor
  obtain ⟨P₂, h₂⟩ := exists_rejecting h₁ hbefore
  obtain ⟨method, hmethod⟩ := Option.ne_none_iff_exists'.1 hid
  exact h₂.completed hm hserver
    (List.mem_map.2 ⟨(id, method), Table.mem_of_get? hmethod, rfl⟩)

/-! ### Runs -/

instance (i : Nat) (m : Moment (World ε)) : Decidable (BeginsClosing i m) :=
  inferInstanceAs (Decidable (_ ∧ _))

instance (i : Nat) (m : Moment (World ε)) : Decidable (LeavesLine i m) :=
  inferInstanceAs (Decidable (_ < _))

/-- Two seconds go by. -/
def twoSecondsLater (w : World Unit) : World Unit := { w with clock := w.clock + 2000 }

theorem outside_twoSecondsLater (w : World Unit) :
    (strictRules Unit 0).Outside w (twoSecondsLater w) :=
  ⟨Nat.le_refl _, rfl, rfl⟩

theorem strictRules_serves_writer : (strictRules Unit 0).Serves (writer 0) := .writer

theorem strictRules_serves_shutdown :
    (strictRules Unit 0).Serves (Program.once (shutdown 0)) := .shutdown

/-- A request, of which so many steps are made, and a shutdown that is about to reject. -/
def hoverThenShutdown (steps : Nat) : List (Choice (strictRules Unit 0)) :=
  [.serve (writer 0) strictRules_serves_writer, .enter ⟨"hover", none, Token.never, none⟩] ++
  List.replicate steps (.client 0) ++
  [.serve (Program.once (shutdown 0)) strictRules_serves_shutdown, .service 1, .service 1]

/-- The crew when the shutdown is about to reject, and the moments until then. -/
def beforeDrain (steps : Nat) : Moments Unit × Crew (World Unit) Ask Outcome :=
  play (hoverThenShutdown steps) ([], Crew.ofState alone)

/-- The crew after the calls were taken out. -/
def afterDrain (steps : Nat) : Crew (World Unit) Ask Outcome :=
  (play [(.service 1 : Choice (strictRules Unit 0))] (beforeDrain steps)).2

/-- The shutdown completes the call that it took out, and registers and queues its own; somebody
comes too late. -/
def rejecting : List (Choice (strictRules Unit 0)) :=
  [.enter ⟨"hover", none, Token.never, none⟩, .client 1] ++ List.replicate 10 (.service 1)

theorem rejected_written :
    ((beforeDrain 9).2.state.connection 0).calls.pending = [(1, "hover")] ∧
    ((play rejecting ([], afterDrain 9)).2.state.connection 0).calls.pending = [(2, "shutdown")] ∧
    RejectedFirst 0 1 (.connectionClosed "server" none) (beforeDrain 9).2
      (play rejecting ([], afterDrain 9)).1 (play rejecting ([], afterDrain 9)).2 := by
  have hnext : AboutToReject 0 1 "server" (beforeDrain 9).1 (beforeDrain 9).2 :=
    ⟨by decide +kernel, _, rfl⟩
  have hleft : ∃ m ∈ (beforeDrain 9).1, m.actor = .client 0 ∧ LeavesLine 0 m := by decide +kernel
  have hlength : (beforeDrain 9).2.clients.length = 1 := by rfl
  have hnone : NoneOnTheWay 0 (beforeDrain 9).1 (beforeDrain 9).2 := by
    intro n ask p hn
    have hlt := (List.getElem?_eq_some_iff.1 hn).1
    obtain rfl : n = 0 := by omega
    exact .inr (.inr hleft)
  have hdrain : (Choice.service 1 : Choice (strictRules Unit 0)).next? (beforeDrain 9).2 =
      some (.service 1, afterDrain 9) := by rfl
  exact ⟨by decide +kernel, by decide +kernel,
    rejected (show 0 < alone.connections.length from Nat.zero_lt_one)
      (run_play (hoverThenShutdown 9) .nil) hnext hnone (Choice.move_of_next? hdrain)
      (run_play rejecting .nil)⟩

/-- A request goes on that was found to be in order before the shutdown began. The shutdown waits
in vain for its response, and the stream is closed. -/
def overtaken : List (Choice (strictRules Unit 0)) :=
  List.replicate 8 (.client 0) ++ List.replicate 9 (.service 1) ++ List.replicate 8 (.service 0) ++
  [.service 1, .outside twoSecondsLater outside_twoSecondsLater] ++
  List.replicate 5 (.service 1) ++ List.replicate 6 (.service 0)

/-- The request is registered after the shutdown took the calls out, is written, and waits when the
stream is closed. -/
theorem overtaken_not_rejected :
    Run (strictRules Unit 0) (Crew.ofState alone) (beforeDrain 1).1 (beforeDrain 1).2 ∧
    AboutToReject 0 1 "server" (beforeDrain 1).1 (beforeDrain 1).2 ∧
    Move (strictRules Unit 0) (beforeDrain 1).2 (.service 1) (afterDrain 1) ∧
    Run (strictRules Unit 0) (afterDrain 1) (play overtaken ([], afterDrain 1)).1
      (play overtaken ([], afterDrain 1)).2 ∧
    (∃ m ∈ (play overtaken ([], afterDrain 1)).1, m.actor = .client 0 ∧ Registers 0 m 1) ∧
    ((afterDrain 1).state.connection 0).outbox.queue.length = 0 ∧
    ((afterDrain 1).state.pipe 1).buffer = [] ∧
    Frame.write (Message.ofRequest 1 "hover" none) <+:
      ((play overtaken ([], afterDrain 1)).2.state.pipe 1).buffer ∧
    ((play overtaken ([], afterDrain 1)).2.state.connection 0).outbox.closed = true ∧
    ((play overtaken ([], afterDrain 1)).2.state.connection 0).calls.pending = [(1, "hover")] ∧
    ¬ RejectedFirst 0 1 (.connectionClosed "server" none) (beforeDrain 1).2
      (play overtaken ([], afterDrain 1)).1 (play overtaken ([], afterDrain 1)).2 := by
  have hpending : ((play overtaken ([], afterDrain 1)).2.state.connection 0).calls.pending =
      [(1, "hover")] := by decide +kernel
  have hdrain : (Choice.service 1 : Choice (strictRules Unit 0)).next? (beforeDrain 1).2 =
      some (.service 1, afterDrain 1) := by rfl
  refine ⟨run_play (hoverThenShutdown 1) .nil, ⟨by decide +kernel, _, rfl⟩,
    Choice.move_of_next? hdrain, run_play overtaken .nil, ?_, by decide +kernel,
    by decide +kernel, by decide +kernel, by decide +kernel, hpending, fun h => ?_⟩
  · unfold Registers
    decide +kernel
  · have hmethod : "hover" = Method.shutdown :=
      (h.registered 1 "hover" (by rw [hpending]; rfl)).1
    exact absurd hmethod (by decide)

end LspClient.Connection
