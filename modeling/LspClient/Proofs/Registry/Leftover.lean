import LspClient.Proofs.Registry.Custody
import LspClient.Proofs.Registry.Sharing

/-!
# What is left after a shutdown

Until the registry is shut down, whatever slot is starting has a creation under way (`UnderWay`).
To shut everything down takes two steps, to refuse callers from now on and to take all slots out; a
caller too takes two, to look whether it is refused and to look its key up. A caller that stands
between its two when the slots are taken out (`InGap`) claims its key afterwards. Its creation is
turned down, and the slot stays as it is: starting, with nothing under way
(`starting_left_inGap`).

Nothing else is left (`remains`): every slot that there is after the slots were taken out is of a
caller that was in the gap. If there was none, there is no slot from then on, and once the creations
are over, every connection that was opened has ended or somebody is about to end it.
-/

namespace LspClient.Registry

open Program Crew
open World (Inside Final)

variable {ε : Type} {connect : Connector ε} {w w' : World ε} {moments : Moments ε}
  {c c' : Crew (World ε) Ask Outcome} {x : Ask} {g : Nat} {key : ConnectionKey}

/-! ### Creations under way -/

/-- The creation of a generation is under way for a key: its caller is about to start it, or a
service sees to it. -/
def UnderWay (connect : Connector ε) (c : Crew (World ε) Ask Outcome) (key : ConnectionKey)
    (g : Nat) : Prop :=
  ∃ x : Ask, x.key.Same key ∧
    ((∃ (k : Nat) (next : Work ε Outcome),
        c.clients[k]? = some (x, .spawn (creation connect x g) next)) ∨
      ∃ (j : Nat) (p : Work ε Bool),
        c.services[j]? = some (creation connect x g, p) ∧ p.result? = none)

/-- One who has claimed a key does nothing but to hand the creation over. -/
theorem Acts.of_claimed {st' : Stage} (h : Acts w w' ⟨some x, .claimed g, []⟩ st') :
    st' = ⟨some x, .claimed g, []⟩ := by
  cases h
  rfl

/-- One who has claimed a key does not wait before the creation is handed over. -/
theorem not_follows_outcomeOf (w : World ε) (g' : Nat) (limit : Limit) :
    ¬ Follows (discipline connect) (outcomeOf g' limit) ⟨some x, .claimed g, []⟩ (Ended x) := by
  intro h
  -- where the outcome is there, the wait is over
  let w' : World ε :=
    { w with registry := { Registry.empty with outcomes := [(g', .ok 0)] }, cancelled := [] }
  obtain ⟨st', hacts, hend⟩ := h w' (.ok (.ok 0)) w' distinct_empty
    (by simp [w', World.isCancelled, Table.get?])
  obtain rfl := hacts.of_claimed
  exact hend.2

/-- Nor does it look the key up again. -/
theorem not_follows_looksUp (w : World ε) (now : Nat) :
    ¬ Follows (discipline connect) (looksUp connect x now) ⟨some x, .claimed g, []⟩ (Ended x) := by
  intro h
  obtain ⟨st', hacts, -⟩ := h { w with registry := Registry.empty } _ _ distinct_empty rfl
  rcases hacts.nextGeneration with heq | ⟨_, _, hclaims⟩
  · cases heq
  · cases hclaims.before

theorem not_follows_goesOn (w : World ε) :
    ¬ Follows (discipline connect) (goesOn connect x) ⟨some x, .claimed g, []⟩ (Ended x) := by
  intro h
  obtain ⟨st', hacts, hnext⟩ := h { w with registry := Registry.empty } _ _ distinct_empty rfl
  obtain rfl := hacts.of_claimed
  exact not_follows_looksUp w _ hnext

/-- A caller that has claimed a key is about to start the creation. -/
theorem Caller.spawns {p : Work ε Outcome} (h : Caller connect x p) (w : World ε)
    (hp : Follows (discipline connect) p ⟨some x, .claimed g, []⟩ (Ended x)) :
    ∃ next, p = .spawn (creation connect x g) next := by
  cases h with
  | asks =>
    rw [getOrCreate_eq] at hp
    obtain ⟨st', hacts, hnext⟩ := hp { w with registry := Registry.empty } _ _ distinct_empty rfl
    obtain rfl := hacts.of_claimed
    exact absurd hnext (not_follows_goesOn w)
  | passed => exact absurd hp (not_follows_goesOn w)
  | looks now => exact absurd hp (not_follows_looksUp w now)
  | claimed g' limit =>
    rcases hp with ⟨-, hnext⟩ | ⟨i, st', hhands, -, -⟩
    · exact absurd hnext (not_follows_outcomeOf w g' limit)
    · obtain ⟨y, g'', hst, hbody, -, -⟩ := hhands
      cases hst
      exact ⟨_, congrArg (Program.spawn · _) hbody⟩
  | waits g' limit => exact absurd hp (not_follows_outcomeOf w g' limit)
  | done r => exact hp.2.elim

/-- One who has claimed a key has opened nothing. -/
theorem Account.claimed_stage {P : Actor → Stage} (h : Account connect P moments c) {a : Actor}
    (hask : (P a).ask = some x) (hrole : (P a).role = .claimed g) :
    P a = ⟨some x, .claimed g, []⟩ := by
  have hnil : (P a).opened = [] := List.eq_nil_iff_forall_not_mem.2 fun i hi =>
    h.opener a i (h.opened a i hi) (by rw [hrole]; rfl)
  rw [← hask, ← hrole, ← hnil]

/-- Until the registry is shut down, the creation of every slot that is starting is under way. -/
theorem Accounted.underWay {P : Actor → Stage} (h : Accounted connect P moments c)
    (hclients : ∀ (k : Nat) (x : Ask) (p : Work ε Outcome), c.clients[k]? = some (x, p) →
      Caller connect x p)
    {name : String} {fileTypes : List String}
    (hs : c.state.registry.slot? key = some (.starting g name fileTypes)) :
    UnderWay connect c key g ∨ c.state.registry.isShutDown = true := by
  refine (h.starting key g name fileTypes hs).imp_left ?_
  rintro ⟨b, hrole⟩
  obtain ⟨b', x, hask, howned, hsame⟩ := h.ordered.filed key _ hs
  obtain rfl : b' = b := by
    refine h.owner_unique b' b g howned ?_
    rcases hrole with hrole | hrole <;> rw [hrole] <;> rfl
  refine ⟨x, hsame, ?_⟩
  rcases hrole with hrole | hrole
  · obtain ⟨k, rfl, p, hk⟩ := (h.asker b' x hask).client (by rw [hrole]; rfl)
    have hfollows := h.staged.clients.follows k x p hk
    rw [Function.comp_apply, h.claimed_stage hask hrole] at hfollows
    obtain ⟨next, rfl⟩ := (hclients k x p hk).spawns c.state hfollows
    exact .inl ⟨k, next, hk⟩
  · obtain ⟨j, p, rfl, hj⟩ := (h.asker b' x hask).service (g := g) (by rw [hrole]; rfl)
    refine .inr ⟨j, p, hj, ?_⟩
    by_contra hdone
    obtain ⟨again, hagain⟩ := Option.ne_none_iff_exists'.1 hdone
    have hends := h.staged.services.follows _ _ _ hj
    rw [eq_done_of_result? hagain] at hends
    exact hends.1.1 g hrole

/-! ### Shutting everything down -/

/-- The service that shuts everything down. -/
def shutsDown : Work ε Bool := do
  let _ ← Registry.shutdownAll
  return false

/-- What is left of it when nothing new is to be created: to take all slots out, and to shut down
their connections. -/
def drains : Work ε Bool := do
  let _ ← Program.locked (step fun r => r.takeOut fun _ => true) >>= shutdownAllOf
  return false

theorem step_shutsDown {p : Work ε Bool} {started : List (Work ε Bool)}
    (hs : Step w shutsDown w' p started) : w'.registry.isShutDown = true ∧ p = drains := by
  obtain ⟨rfl, rfl, -⟩ := step_act_bind.1 (show Step w (Program.act (fun w : World ε =>
    ((), { w with registry := w.registry.shutDown })) >>= fun _ => drains) w' p started from hs)
  exact ⟨rfl, rfl⟩

theorem step_drains {p : Work ε Bool} {started : List (Work ε Bool)}
    (hs : Step w drains w' p started) : w'.registry.slots = [] := by
  obtain ⟨rfl, -, -⟩ := step_locked_bind.1 (show Step w (Program.locked (step fun r =>
    r.takeOut fun _ => true) >>= fun taken => do
      let _ ← shutdownAllOf taken
      return false) w' p started from hs)
  exact List.filter_eq_nil_iff.2 fun _ _ h => nomatch h

/-- In a run to `c`, a service that shuts everything down has taken all slots out in the move from
`c₁` to `c₂`. -/
structure Drain (connect : Connector ε) (w : World ε) (moments : Moments ε)
    (c : Crew (World ε) Ask Outcome) (j : Nat) (c₁ c₂ : Crew (World ε) Ask Outcome) : Prop where
  stands : c₁.services[j]? = some (shutsDown, drains)
  isShutDown : c₁.state.registry.isShutDown = true
  move : Move (lasting connect) c₁ (.service j) c₂
  run : ∃ earlier later, moments = earlier ++ ⟨.service j, c₁.state, c₂.state⟩ :: later ∧
    Run (lasting connect) (Crew.ofState w) earlier c₁ ∧ Run (lasting connect) c₂ later c

theorem isShutDown_move (hconnect : Lawful connect) (hw : w.registry = Registry.empty)
    (run : Run (lasting connect) (Crew.ofState w) moments c) {a : Actor}
    (hmove : Move (lasting connect) c a c') (hdown : c.state.registry.isShutDown = true) :
    c'.state.registry.isShutDown = true := by
  obtain ⟨P, h⟩ := exists_accounted_lasting hconnect hw (run.move hmove)
  obtain ⟨st, st', hacts⟩ := h.acted _ (List.mem_append_right _ (List.mem_singleton_self _))
  exact hacts.isShutDown hdown

theorem Drain.mono {j : Nat} {c₁ c₂ : Crew (World ε) Ask Outcome} {a : Actor}
    (h : Drain connect w moments c j c₁ c₂) (hmove : Move (lasting connect) c a c') :
    Drain connect w (moments ++ [⟨a, c.state, c'.state⟩]) c' j c₁ c₂ := by
  obtain ⟨earlier, later, rfl, hbefore, hafter⟩ := h.run
  exact ⟨h.stands, h.isShutDown, h.move, earlier, later ++ [⟨a, c.state, c'.state⟩], by simp,
    hbefore, hafter.move hmove⟩

theorem Drain.slots {j : Nat} {c₁ c₂ : Crew (World ε) Ask Outcome}
    (h : Drain connect w moments c j c₁ c₂) : c₂.state.registry.slots = [] := by
  rcases h.move.service_step h.stands with heq | ⟨p, s, started, hstep, rfl⟩
  · cases heq
  · exact step_drains hstep

/-- Where a service stands that shuts everything down. -/
inductive ShuttingDown (connect : Connector ε) (w : World ε) (moments : Moments ε)
    (c : Crew (World ε) Ask Outcome) (j : Nat) : Work ε Bool → Prop
  | begins : ShuttingDown connect w moments c j shutsDown
  | drains (h : c.state.registry.isShutDown = true) : ShuttingDown connect w moments c j drains
  | drained {p : Work ε Bool} {c₁ c₂ : Crew (World ε) Ask Outcome}
      (h : Drain connect w moments c j c₁ c₂) : ShuttingDown connect w moments c j p

theorem ShuttingDown.move (hconnect : Lawful connect) (hw : w.registry = Registry.empty)
    (run : Run (lasting connect) (Crew.ofState w) moments c) {a : Actor} {j : Nat}
    {p p' : Work ε Bool} (hmove : Move (lasting connect) c a c')
    (hj : c.services[j]? = some (shutsDown, p)) (h : ShuttingDown connect w moments c j p)
    (hj' : c'.services[j]? = some (shutsDown, p')) :
    ShuttingDown connect w (moments ++ [⟨a, c.state, c'.state⟩]) c' j p' := by
  by_cases ha : a = .service j
  · subst ha
    rcases hmove.service_step hj with rfl | ⟨q, s, started, hstep, heq⟩
    · cases h with
      | drained h => exact .drained (h.mono hmove)
    · subst heq
      have hlt := (List.getElem?_eq_some_iff.1 hj).1
      rw [List.getElem?_append_left (by simpa using hlt), List.getElem?_set_self hlt] at hj'
      cases hj'
      cases h with
      | begins =>
        obtain ⟨hdown, rfl⟩ := step_shutsDown hstep
        exact .drains hdown
      | drains hdown =>
        exact .drained ⟨hj, hdown, hmove, moments, [], rfl, run, .nil⟩
      | drained h => exact .drained (h.mono hmove)
  · rw [hmove.service_unmoved hj ha] at hj'
    cases hj'
    cases h with
    | begins => exact .begins
    | drains hdown => exact .drains (isShutDown_move hconnect hw run hmove hdown)
    | drained h => exact .drained (h.mono hmove)

theorem shuttingDown (hconnect : Lawful connect) (hw : w.registry = Registry.empty)
    (run : Run (lasting connect) (Crew.ofState w) moments c) {j : Nat} {p : Work ε Bool}
    (hj : c.services[j]? = some (shutsDown, p)) : ShuttingDown connect w moments c j p := by
  induction run generalizing p with
  | nil => cases hj
  | move run hmove ih =>
    rcases hmove.service_cases hj with ⟨-, rfl⟩ | ⟨q, hq, -⟩
    · exact .begins
    · exact (ih hq).move hconnect hw run hmove hq hj

/-! ### After the slots were taken out -/

/-- The caller has found that the registry is not shut down, and is yet to look its key up. -/
def InGap (connect : Connector ε) (c : Crew (World ε) Ask Outcome) (k : Nat) (x : Ask) : Prop :=
  ∃ p, c.clients[k]? = some (x, p) ∧ (p = goesOn connect x ∨ ∃ now, p = looksUp connect x now)

/-- A caller is in the gap, or clear of it. -/
theorem Caller.clear_or_inGap {k : Nat} {p : Work ε Outcome} (h : Caller connect x p)
    (hk : c.clients[k]? = some (x, p)) : Clear connect x p ∨ InGap connect c k x := by
  cases h with
  | asks => exact .inl .asks
  | passed => exact .inr ⟨_, hk, .inl rfl⟩
  | looks now => exact .inr ⟨_, hk, .inr ⟨now, rfl⟩⟩
  | claimed g limit => exact .inl (.claimed g limit)
  | waits g limit => exact .inl (.waits g limit)
  | done r => exact .inl (.done r)

/-- What is left of a registry that was shut down and had no slots in `c₂`: all callers are clear
but those that were in the gap then, and what is in the slots now is what these have begun. -/
structure LeftSince (connect : Connector ε) (c₂ c : Crew (World ε) Ask Outcome) : Prop where
  isShutDown : c.state.registry.isShutDown = true
  clear : ∀ (k : Nat) (x : Ask) (p : Work ε Outcome), c.clients[k]? = some (x, p) →
    Clear connect x p ∨ InGap connect c₂ k x
  late : ∀ key s, c.state.registry.slot? key = some s → ∃ k x, InGap connect c₂ k x ∧
    x.key.Same key ∧ ∃ g name fileTypes, s = .starting g name fileTypes

/-- Whoever claims a key is not clear. -/
theorem LeftSince.inGap {c₂ : Crew (World ε) Ask Outcome} {k : Nat} (h : LeftSince connect c₂ c)
    (hmove : Move (lasting connect) c (.client k) c') (hasks : Asks c' k x)
    (hclaims : Claims x.key g c.state c'.state) : InGap connect c₂ k x := by
  have hmoved : c'.state ≠ c.state := fun heq => by
    have hnext := hclaims.next
    rw [heq, hclaims.number] at hnext
    omega
  obtain ⟨p, hk⟩ := hasks
  cases hmove with
  | enter y => exact absurd rfl hmoved
  | client hk' hstep =>
    rw [List.getElem?_set_self (List.getElem?_eq_some_iff.1 hk').1] at hk
    cases hk
    exact (h.clear k x _ hk').resolve_left fun hclear =>
      hmoved (hclear.step h.isShutDown hstep).1

theorem LeftSince.move (hconnect : Lawful connect) (hw : w.registry = Registry.empty)
    (run : Run (lasting connect) (Crew.ofState w) moments c)
    {c₂ : Crew (World ε) Ask Outcome} {a : Actor} (hmove : Move (lasting connect) c a c')
    (h : LeftSince connect c₂ c) : LeftSince connect c₂ c' := by
  refine ⟨isShutDown_move hconnect hw run hmove h.isShutDown, fun k x p hk => ?_,
    fun key s hs => ?_⟩
  · rcases hmove.client_cases hk with ⟨-, rfl⟩ | ⟨q, hq, ⟨rfl, -⟩ | ⟨-, started, hstep⟩⟩
    · exact .inl .asks
    · exact h.clear k x q hq
    · exact (h.clear k x q hq).imp_left fun hclear => (hclear.step h.isShutDown hstep).2
  · obtain ⟨P, haccount⟩ := exists_accounted_lasting hconnect hw (run.move hmove)
    have hlast : (⟨a, c.state, c'.state⟩ : Moment (World ε)) ∈
        moments ++ [⟨a, c.state, c'.state⟩] :=
      List.mem_append_right _ (List.mem_singleton_self _)
    obtain ⟨st, st', hacts⟩ := haccount.acted _ hlast
    -- a slot that was not there before is one of a caller past its check of the flag
    rcases hacts.slot? hs with hold | ⟨x, g, name, fileTypes, hclaims, -, -⟩ |
      ⟨x, g, i, hkeeps, -, -⟩
    · exact h.late key s hold
    · have hne : c'.state.registry.nextGeneration ≠ c.state.registry.nextGeneration := by
        rw [hclaims.claims.next, hclaims.claims.number]
        exact Nat.succ_ne_self g
      obtain ⟨k, y, rfl, hasks, hclaims'⟩ := haccount.claimed _ hlast hne
      obtain ⟨name, fileTypes, hslot⟩ := hclaims'.slot
      rw [hslot] at hs
      split at hs
      · next hsame =>
        cases hs
        exact ⟨k, y, h.inGap hmove hasks hclaims', hsame, _, _, _, rfl⟩
      · exact h.late key s hs
    · cases h.isShutDown.symm.trans hkeeps.up

theorem Drain.leftSince (hconnect : Lawful connect) (hw : w.registry = Registry.empty) {j : Nat}
    {c₁ c₂ : Crew (World ε) Ask Outcome} (h : Drain connect w moments c j c₁ c₂) :
    LeftSince connect c₂ c := by
  obtain ⟨earlier, later, -, hbefore, hafter⟩ := h.run
  have hstart : LeftSince connect c₂ c₂ := by
    refine ⟨isShutDown_move hconnect hw hbefore h.move h.isShutDown, fun k x p hk => ?_,
      fun key s hs => ?_⟩
    · have hcaller : Caller connect x p :=
        caller_of_run (R := lasting connect) rfl (hbefore.move h.move) rfl hk
      exact hcaller.clear_or_inGap hk
    · rw [slot?_eq_lookup, h.slots] at hs
      cases hs
  have hrun := hbefore.move h.move
  clear h
  induction hafter with
  | nil => exact hstart
  | move run hmove ih => exact ih.move hconnect hw (hrun.append run) hmove

/-! ### Every run -/

/-- No creation goes on. -/
def CreationsOver (connect : Connector ε) (c : Crew (World ε) Ask Outcome) : Prop :=
  ∀ (j : Nat) (x : Ask) (g : Nat) (p : Work ε Bool),
    c.services[j]? = some (creation connect x g, p) → p.result? ≠ none

/-- What remains in a registry after a run. -/
structure Remains (connect : Connector ε) (w : World ε) (moments : Moments ε)
    (c : Crew (World ε) Ask Outcome) : Prop where
  /-- Until the registry is shut down, every slot that is starting has a creation under way. -/
  underWay : ∀ key g name fileTypes,
    c.state.registry.slot? key = some (.starting g name fileTypes) →
      UnderWay connect c key g ∨ c.state.registry.isShutDown = true
  /-- Whoever has shut everything down has taken all slots out. -/
  drained : ∀ j again, c.services[j]? = some (shutsDown, .done again) →
    ∃ c₁ c₂, Drain connect w moments c j c₁ c₂
  /-- What is in a slot afterwards was begun by a caller that was in the gap. -/
  late : ∀ j c₁ c₂, Drain connect w moments c j c₁ c₂ → ∀ key s,
    c.state.registry.slot? key = some s → ∃ k x, InGap connect c₂ k x ∧ x.key.Same key ∧
      ∃ g name fileTypes, s = .starting g name fileTypes
  /-- If there was none, no slot is left; and once the creations are over no connection is alive
  but those that somebody is about to end. -/
  nothing : ∀ j c₁ c₂, Drain connect w moments c j c₁ c₂ → (∀ k x, ¬ InGap connect c₂ k x) →
    c.state.registry.slots = [] ∧ (CreationsOver connect c → ∀ a i, OpenedBy moments a i →
      ¬ Closing c i → (c.state.connection i).isAlive = false)

theorem remains (hconnect : Lawful connect) (htidy : Tidy connect)
    (hw : w.registry = Registry.empty)
    (run : Run (lasting connect) (Crew.ofState w) moments c) :
    Remains connect w moments c := by
  obtain ⟨P, h⟩ := exists_accounted_lasting hconnect hw run
  have hlate (j : Nat) (c₁ c₂ : Crew (World ε) Ask Outcome)
      (hdrain : Drain connect w moments c j c₁ c₂) := (hdrain.leftSince hconnect hw).late
  constructor
  case underWay =>
    exact fun key g name fileTypes => h.underWay fun k x p =>
      caller_of_run (R := lasting connect) rfl run rfl
  case drained =>
    intro j again hj
    cases shuttingDown hconnect hw run hj with
    | drained h => exact ⟨_, _, h⟩
  case late => exact hlate
  case nothing =>
    intro j c₁ c₂ hdrain hnone
    have hslots : c.state.registry.slots = [] := slots_eq_nil fun key s hs =>
      let ⟨k, x, hgap, _⟩ := hlate j c₁ c₂ hdrain key s hs
      hnone k x hgap
    refine ⟨hslots, fun hover a i hopened hnot => ?_⟩
    by_contra halive
    rcases living_of_opened hconnect htidy hw run hopened (by simpa using halive) with
      ⟨g, key, name, hs⟩ | ⟨j', x, g, p, hj', hgoing⟩ | hclosing
    · rw [slot?_eq_lookup, hslots] at hs
      cases hs
    · exact hover j' x g p hj' hgoing
    · exact hnot hclosing

/-! ### Shutting down over the pipes -/

theorem tidy_overPipes : Tidy overPipes := fun _ _ _ =>
  tending_start.bind fun hands i hhands => by
    subst hhands
    intro j hj
    rw [List.mem_singleton.1 hj]

theorem lasting_hangUp (w : World Unit) : (lasting overPipes).Outside w (hangUp w) :=
  ⟨outside_hangUp w, fun _ h => h⟩

/-- A caller has its connection when everything is shut down. -/
def untilDrain : Moments Unit × Crew (World Unit) Ask Outcome :=
  play ([.enter someAsk] ++ List.replicate 4 (.client 0) ++ List.replicate 6 (.service 0) ++
    [.client 0, .serve _ .shutdownAll, .service 4]) (R := lasting overPipes)
    ([], Crew.ofState twoPipes)

def drained : Crew (World Unit) Ask Outcome :=
  (play [.service 4] (R := lasting overPipes) ([], untilDrain.2)).2

/-- The server hangs up, and everybody comes to an end. -/
def sinceDrain : Moments Unit × Crew (World Unit) Ask Outcome :=
  play ([.service 4, .outside hangUp lasting_hangUp] ++ List.replicate 7 (.service 2) ++
    List.replicate 12 (.service 4) ++ [.service 1] ++ List.replicate 2 (.service 3))
    ([], drained)

/-- The run up to the drain, and on to the end. -/
def shutDownWhenReady : Moments Unit :=
  untilDrain.1 ++ ⟨.service 4, untilDrain.2.state, drained.state⟩ :: sinceDrain.1

/-- Nothing is left of the connection that was opened. -/
theorem remains_shutDownWhenReady : sinceDrain.2.state.connections.length = 1 ∧
    sinceDrain.2.state.registry.slots = [] ∧ ∀ a i, OpenedBy shutDownWhenReady a i →
      (sinceDrain.2.state.connection i).isAlive = false := by
  have hnext : Choice.next? untilDrain.2 (Choice.service (R := lasting overPipes) 4) =
      some (.service 4, drained) := by rfl
  have hmove := Choice.move_of_next? hnext
  have hbefore : Run (lasting overPipes) (Crew.ofState twoPipes) untilDrain.1 untilDrain.2 :=
    run_play _ .nil
  have hafter : Run (lasting overPipes) drained sinceDrain.1 sinceDrain.2 := run_play _ .nil
  have run : Run (lasting overPipes) (Crew.ofState twoPipes) shutDownWhenReady sinceDrain.2 := by
    have hboth := (hbefore.move hmove).append hafter
    rwa [List.append_assoc] at hboth
  have hdrain : Drain overPipes twoPipes shutDownWhenReady sinceDrain.2 4 untilDrain.2 drained :=
    ⟨by rfl, by rfl, hmove, _, _, rfl, hbefore, hafter⟩
  have hclients : drained.clients = [(someAsk, .done (.ok 0))] := by rfl
  have hnone (k : Nat) (x : Ask) : ¬ InGap overPipes drained k x := by
    rintro ⟨p, hk, hgap⟩
    rw [hclients] at hk
    cases List.mem_singleton.1 (List.mem_of_getElem? hk)
    rcases hgap with hgap | ⟨now, hgap⟩ <;> cases hgap
  have hresults : sinceDrain.2.services.map (fun e => e.2.result?) =
      List.replicate 5 (some false) := by rfl
  have hover (j : Nat) (body p : Work Unit Bool)
      (hj : sinceDrain.2.services[j]? = some (body, p)) : p = .done false := by
    have hp := List.mem_map_of_mem (f := fun e => e.2.result?) (List.mem_of_getElem? hj)
    rw [hresults] at hp
    exact eq_done_of_result? (List.eq_of_mem_replicate hp)
  obtain ⟨hslots, hended⟩ :=
    (remains lawful_overPipes tidy_overPipes rfl run).nothing 4 _ _ hdrain hnone
  refine ⟨by rfl, hslots, fun a i hopened => hended (fun j x g p hj => ?_) a i hopened ?_⟩
  · rw [hover j _ p hj]
    nofun
  · rintro ⟨j, body, p, hj, hto⟩
    rw [hover j body p hj] at hto
    cases hto

/-- A caller is in the gap while everything is shut down. -/
def shutDownInGap : List (Choice (lasting overPipes)) :=
  [.enter someAsk] ++ List.replicate 2 (.client 0) ++ [.serve _ .shutdownAll] ++
  List.replicate 2 (.service 0) ++ List.replicate 2 (.client 0) ++ List.replicate 8 (.service 1) ++
  [.outside hangUp lasting_hangUp] ++ List.replicate 7 (.service 3) ++
  List.replicate 12 (.service 1) ++ [.service 2, .service 1, .client 0]

/-- Everything was shut down and everybody is over, and yet there is a slot that is starting. -/
theorem starting_left_inGap :
    (play shutDownInGap ([], Crew.ofState twoPipes)).2.services.map (fun e => e.2.result?) =
        List.replicate 4 (some false) ∧
      (play shutDownInGap ([], Crew.ofState twoPipes)).2.services[0]?.map (fun e => e.1) =
        some shutsDown ∧
      (play shutDownInGap ([], Crew.ofState twoPipes)).2.clients.map (fun e => e.2.result?) =
        [some (.error (.connectionClosed "server" none))] ∧
      (play shutDownInGap ([], Crew.ofState twoPipes)).2.state.registry.slots.map (fun e => e.2) =
        [.starting 1 "server" []] := by
  refine ⟨?_, ?_, ?_, ?_⟩ <;> rfl

end LspClient.Registry
