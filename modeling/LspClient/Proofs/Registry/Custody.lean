import LspClient.Proofs.Registry.Tending

/-!
# Connections that live on

Whoever takes a slot out has to end its connection. `Careful` says so of a program: a step of it
that takes slots out takes those of connections that have ended or that it is about to end
(`IsToEnd`), but for a creation, which takes out its own slot when it has failed. All services are
careful, so a connection in a slot stays there until it has ended or somebody is about to end it
(`stored_move`).

Together with those who answer for a connection before it is in a slot, this accounts for every
connection that is alive (`living_of_opened`).
-/

namespace LspClient.Registry

open Program Crew
open World (Inside Final Steady)

variable {ε α β : Type} {connect : Connector ε} {w w' : World ε} {moments : Moments ε}
  {c c' : Crew (World ε) Ask Outcome} {a : Actor} {x : Ask} {g i : Nat} {key : ConnectionKey}
  {name : String}

/-- The program is about to begin the end of the connection, perhaps with others beside it. -/
def IsToEnd (i : Nat) (p : Work ε α) : Prop :=
  StandsAt (Work.onConnection i Connection.beginClosing) p

/-- A step that only takes slots out takes out those of connections that have ended or that the
program is about to end, and the slot of a creation that the program is about to call a failure. -/
def Minds (w w' : World ε) (p : Work ε α) : Prop :=
  Trims w.registry w'.registry → ∀ key g name i,
    w.registry.slot? key = some (.ready g name i) →
      w'.registry.slot? key = some (.ready g name i) ∨ (w'.connection i).isAlive = false ∨
        IsToEnd i p ∨ ∃ e, StandsAt (tellWaiting g (.error e)) p

/-- Every step of the program, and of what it starts, takes such slots out only. -/
def Careful : {α : Type} → Work ε α → Prop
  | _, .done _ => True
  | _, .await _ step next => ∀ w b w', step w = some (b, w') →
      Minds w w' (next b) ∧ Careful (next b)
  | _, .spawn service next => Careful service ∧ Careful next
  | _, .both p q next => Careful p ∧ Careful q ∧ ∀ b c, Careful (next b c)

theorem Minds.mono {p : Work ε α} {q : Work ε β} (h : Minds w w' p)
    (hq : ∀ {γ : Type} (r : Work ε γ), StandsAt r p → StandsAt r q) : Minds w w' q := by
  intro ht key g name i hs
  rcases h ht key g name i hs with hs | hended | hto | ⟨e, he⟩
  · exact .inl hs
  · exact .inr (.inl hended)
  · exact .inr (.inr (.inl (hq _ hto)))
  · exact .inr (.inr (.inr ⟨e, hq _ he⟩))

/-- The step leaves the slots as they are. -/
def SameSlots (w w' : World ε) : Prop := w'.registry.slots = w.registry.slots

theorem SameSlots.minds {p : Work ε α} (h : SameSlots w w') : Minds w w' p :=
  fun _ _ _ _ _ hs => .inl (by rwa [slot?_eq_lookup, h])

theorem Careful.bind {p : Work ε α} {k : α → Work ε β} (hp : Careful p)
    (hk : ∀ a, Careful (k a)) : Careful (p >>= k) := by
  change Careful (p.bind k)
  induction p with
  | done a => exact hk a
  | await deadline step next ih =>
    intro w b w' hs
    obtain ⟨hminds, hnext⟩ := hp w b w' hs
    exact ⟨hminds.mono fun _ h => h.bind k, ih b hnext hk⟩
  | spawn service next _ ih => exact ⟨hp.1, ih hp.2 hk⟩
  | both p q next _ _ ih => exact ⟨hp.1, hp.2.1, fun b c => ih b c (hp.2.2 b c) hk⟩

theorem Careful.of_sameSlots {p : Work ε α} (h : Keeps SameSlots p) : Careful p := by
  induction p with
  | done a => trivial
  | await deadline step next ih =>
    intro w b w' hs
    obtain ⟨hslots, hnext⟩ := h w b w' hs
    exact ⟨hslots.minds, ih b hnext⟩
  | spawn service next ihs ih => exact ⟨ihs h.1, ih h.2⟩
  | both p q next ihp ihq ih => exact ⟨ihp h.1, ihq h.2.1, fun b c => ih b c (h.2.2 b c)⟩

theorem Careful.of_inside {p : Work ε α} (h : Keeps Inside p) : Careful p :=
  .of_sameSlots (h.mono fun _ _ hw => by rw [SameSlots, hw.1])

theorem Careful.locked_bind {f : World ε → α × World ε} {k : α → Work ε β}
    (hf : ∀ w, Minds w (f w).2 (k (f w).1)) (hk : ∀ a, Careful (k a)) :
    Careful (locked f >>= k) := by
  intro w b w' hs
  obtain ⟨rfl, rfl⟩ := Prod.mk.inj (Option.some.inj hs)
  exact ⟨hf w, hk _⟩

theorem Careful.step {p p' : Work ε α} {started : List (Work ε Bool)} (hp : Careful p)
    (hs : Step w p w' p' started) :
    Minds w w' p' ∧ Careful p' ∧ ∀ q ∈ started, Careful q := by
  induction hs with
  | await hs =>
    obtain ⟨hminds, hnext⟩ := hp _ _ _ hs
    exact ⟨hminds, hnext, nofun⟩
  | spawn => exact ⟨SameSlots.minds rfl, hp.2, by simpa using hp.1⟩
  | left _ ih =>
    obtain ⟨hminds, hp', hstarted⟩ := ih hp.1
    exact ⟨hminds.mono fun _ => .left, ⟨hp', hp.2⟩, hstarted⟩
  | right _ ih =>
    obtain ⟨hminds, hq', hstarted⟩ := ih hp.2.1
    exact ⟨hminds.mono fun _ => .right, ⟨hp.1, hq', hp.2.2⟩, hstarted⟩
  | join => exact ⟨SameSlots.minds rfl, hp.2.2 _ _, nofun⟩

/-! ### Those who take connections down -/

theorem isToEnd_shutdown (i : Nat) : IsToEnd i (Connection.shutdown i : Work ε Unit) :=
  .await rfl

theorem isToEnd_shutdownAllOf {connections : List Nat} (hi : i ∈ connections) :
    IsToEnd i (shutdownAllOf connections : Work ε Nat) := by
  refine StandsAt.bind (k := fun _ => pure connections.length) ?_
  induction connections with
  | nil => cases hi
  | cons j connections ih =>
    rcases List.mem_cons.1 hi with rfl | hi
    · exact .left (isToEnd_shutdown i)
    · exact .right (ih hi)

theorem careful_shutdownAllOf (connections : List Nat) :
    Careful (shutdownAllOf connections : Work ε Nat) := by
  refine .of_inside (Keeps.bind (Keeps.all _ fun p hp => ?_) fun _ => Keeps.pure _)
  obtain ⟨i, -, rfl⟩ := List.mem_map.1 hp
  exact Connection.parts_inside.shutdown

/-- Whoever takes slots out shuts down all of their connections. -/
theorem careful_takeOut (q : World ε → Slot → Bool) :
    Careful (locked (fun w => step (fun r => r.takeOut (q w)) w) >>= shutdownAllOf) := by
  refine .locked_bind (fun w _ key g name i hs => ?_) careful_shutdownAllOf
  rcases slot?_takeOut (q w) hs with hs | hi
  · exact .inl hs
  · exact .inr (.inr (.inl (isToEnd_shutdownAllOf (hi i rfl))))

theorem careful_watch : Careful (watch key g i : Work ε Unit) := by
  refine (Careful.of_inside Connection.parts_inside.untilClosed).bind fun _ => ?_
  refine .locked_bind (fun w _ key' g' name i hs => ?_) fun taken => ?_
  · simp only [step, takeEnded]
    split
    · next g₀ name₀ i₀ hslot =>
      split
      · by_cases hsame : key.Same key'
        · rw [slot?_congr _ hsame, hs] at hslot
          cases hslot
          exact .inr (.inr (.inl (isToEnd_shutdown i)))
        · refine .inl ?_
          rw [slot?_remove, if_neg hsame, hs]
      · exact .inl hs
    · exact .inl hs
  · cases taken with
    | none => trivial
    | some i => exact .of_inside Connection.parts_inside.shutdown

theorem careful_reaper (idle interval : Nat) : Careful (reaper idle interval : Work ε Bool) := by
  refine (Careful.of_sameSlots (Keeps.look fun _ => rfl)).bind fun due => ?_
  refine (Careful.of_sameSlots (Keeps.await fun w a w' hs => ?_)).bind fun ended => ?_
  · split at hs
    · cases hs
      rfl
    · obtain ⟨-, heq⟩ := Option.ite_none_right_eq_some.1 hs
      cases heq
      rfl
  · split
    · trivial
    · have hplan : Keeps SameSlots (update (planReap (ε := ε) interval due)) :=
        Keeps.update fun _ => rfl
      refine (Careful.of_sameSlots hplan).bind fun _ => ?_
      exact (careful_takeOut fun w => isIdle w idle).bind fun _ => trivial

theorem careful_serves {p : Work ε Bool} (hp : Serves p) : Careful p := by
  cases hp with
  | reapIdle limit => exact (careful_takeOut fun w => isIdle w limit).bind fun _ => trivial
  | shutdownNamed name =>
    exact (careful_takeOut fun _ s => s.name == name).bind fun _ => trivial
  | shutdownAll =>
    have hdown : Keeps SameSlots (update fun w : World ε =>
        { w with registry := w.registry.shutDown }) := Keeps.update fun _ => rfl
    exact ((Careful.of_sameSlots hdown).bind fun _ => careful_takeOut fun _ _ => true).bind
      fun _ => trivial
  | startReaper idle interval =>
    have hplan : Keeps SameSlots (update fun w : World ε => planReap interval w.clock w) :=
      Keeps.update fun _ => rfl
    refine Careful.bind (p := Registry.startReaper idle interval) ?_ fun _ => trivial
    refine (Careful.of_sameSlots hplan).bind fun _ => ?_
    exact ⟨careful_reaper idle interval, trivial⟩

/-! ### Creations -/

theorem careful_tellWaiting {r : Outcome} : Careful (tellWaiting g r : Work ε Unit) :=
  .of_sameSlots (Keeps.update fun _ => rfl)

theorem careful_finish {created : Outcome} :
    Careful (finish key g name created : Work ε Unit) := by
  match created with
  | .error e =>
    refine .locked_bind (fun w _ key' g' name' i hs => ?_) fun _ => careful_tellWaiting
    change (if w.registry.isCurrent key g then w.registry.remove key else w.registry).slot? key' =
      _ ∨ _
    split
    · next hcurrent =>
      by_cases hsame : key.Same key'
      · -- the slot was one of the generation that is about to be called a failure
        obtain ⟨s, hslot, hg⟩ := isCurrent_iff.1 hcurrent
        rw [slot?_congr _ hsame, hs] at hslot
        cases hslot
        cases hg
        exact .inr (.inr (.inr ⟨e, .await rfl⟩))
      · refine .inl ?_
        rw [slot?_remove, if_neg hsame, hs]
    · exact .inl hs
  | .ok i =>
    refine .locked_bind (fun w ht key' g' name' i' hs => ?_) fun kept => ?_
    · revert ht
      rw [step]
      rcases settle_ok_cases w.registry key g name i with ⟨-, -, heq⟩ | ⟨-, heq⟩
      · -- what is kept is under the key afterwards, so it was there before if nothing was added
        rw [heq]
        intro ht
        have hslot := slot?_fill w.registry key key' (.ready g name i)
        split at hslot
        · have hbefore := ht.slot? key' _ hslot
          rw [hs] at hbefore
          cases hbefore
          exact .inl hslot
        · exact .inl (hslot.trans hs)
      · rw [heq]
        exact fun _ => .inl hs
    · dsimp only
      split
      · exact ⟨careful_watch.bind fun _ => trivial, careful_tellWaiting⟩
      · exact (Careful.of_inside Connection.parts_inside.shutdown).bind fun _ =>
          careful_tellWaiting

theorem careful_creation (hconnect : Lawful connect) (x : Ask) (g : Nat) :
    Careful (creation connect x g) := by
  have hconnected : Keeps SameSlots (connect x.name x.config x.key.cwd) :=
    (hconnect.keeps_registry _ _ _).mono fun _ _ h => by rw [SameSlots, h]
  refine Careful.bind ?_ fun _ => trivial
  rw [create_eq]
  exact (Careful.of_sameSlots hconnected).bind fun _ => careful_finish

/-- All services of a run are careful. -/
theorem careful_of_run (hconnect : Lawful connect) {w : World ε}
    (run : Run (lasting connect) (Crew.ofState w) moments c) :
    ∀ e ∈ c.services, Careful e.1 ∧ Careful e.2 := by
  refine run.services_have (fun _ => careful_serves) (fun _ _ _ _ _ hs hp => (hp.step hs).2)
    (fun moments c k x p p' s' started run hk hs => ?_) nofun
  have hcaller : Caller connect x p := caller_of_run (R := lasting connect) rfl run rfl hk
  cases hcaller.step hs with
  | hands g limit =>
    intro q hq
    obtain rfl := List.mem_singleton.1 hq
    exact careful_creation hconnect x g
  | _ => exact nofun

/-! ### Slots that are ready -/

/-- A slot that is ready stays when a key is claimed, unless its connection has ended. -/
theorem Claims.ready {key' : ConnectionKey} {g' : Nat} (h : Claims key' g' w w')
    (hs : w.registry.slot? key = some (.ready g name i)) :
    w'.registry.slot? key = some (.ready g name i) ∨ (w.connection i).isAlive = false := by
  obtain ⟨name', fileTypes, hslot⟩ := h.slot
  by_cases hsame : key'.Same key
  · obtain ⟨_, _, _, heq, hended⟩ := h.vacant _ ((slot?_congr _ hsame).trans hs)
    cases heq
    exact .inr hended
  · exact .inl (by rw [hslot, if_neg hsame, hs])

/-- A slot that is ready stays, unless its connection has ended, or the creation of its generation
is not over, or slots were taken out. -/
theorem Acts.ready {st st' : Stage} (h : Acts w w' st st')
    (hs : w.registry.slot? key = some (.ready g name i)) :
    w'.registry.slot? key = some (.ready g name i) ∨ (w.connection i).isAlive = false ∨
      st.role.unkept? = some g ∨ Trims w.registry w'.registry := by
  cases h with
  | trim ht => exact .inr (.inr (.inr ht))
  | fail ht => exact .inr (.inr (.inr ht))
  | opens hr => exact .inl (hr ▸ hs)
  | tell hr => exact .inl (hr ▸ hs)
  | claim h => exact (h.ready hs).imp_right .inl
  | @keep x g' i' opened hi hcurrent hup hr =>
    by_cases hsame : x.key.Same key
    · obtain ⟨s, hslot, hg⟩ := isCurrent_iff.1 hcurrent
      rw [slot?_congr _ hsame, hs] at hslot
      cases hslot
      cases hg
      exact .inr (.inr (.inl rfl))
    · exact .inl (by rw [hr, slot?_fill, if_neg hsame, hs])
  | _ => next hw => exact .inl (hw.1 ▸ hs)

/-- The step in which a creation tells its outcome is one of a creation that has come to it. -/
theorem Acts.ends_of_tells {st st' : Stage} {r : Outcome} (hw : w.registry = Registry.empty)
    (h : Acts w { w with registry := w.registry.announce g r } st st') :
    st.role = .ends g r := by
  rw [hw] at h
  rcases h.outcomes with heq | ⟨x, g', r', opened, rfl, -, heq⟩
  · rw [hw] at heq
    cases heq
  · rw [hw] at heq
    cases heq
    rfl

theorem not_tells_of_neutral (w : World ε) {p : Work ε α} {r : Outcome}
    (h : StandsAt (tellWaiting g r) p) : ¬ Keeps (discipline connect).Neutral p := by
  induction h with
  | await h =>
    intro hp
    cases h
    have hneutral := (hp { w with registry := Registry.empty } () _ rfl).1 distinct_empty
      ⟨none, .none, []⟩
    cases Acts.ends_of_tells rfl hneutral
  | left _ ih => exact fun hp => ih hp.1
  | right _ ih => exact fun hp => ih hp.2.1

/-- Whoever is about to tell the outcome of a creation is at that stage. -/
theorem ends_of_tells (w : World ε) {p : Work ε α} {st : Stage} {Q : Stage → α → Prop}
    {r : Outcome} (hp : Follows (discipline connect) p st Q)
    (h : StandsAt (tellWaiting g r) p) : st.role = .ends g r := by
  cases h with
  | await h =>
    cases h
    obtain ⟨st', hacts, -⟩ := hp { w with registry := Registry.empty } () _ distinct_empty rfl
    exact Acts.ends_of_tells rfl hacts
  | left h => exact absurd hp.1 (not_tells_of_neutral w h)
  | right h => exact absurd hp.2.1 (not_tells_of_neutral w h)

/-- One of the services is about to end the connection. -/
def Closing (c : Crew (World ε) Ask Outcome) (i : Nat) : Prop :=
  ∃ (j : Nat) (body p : Work ε Bool), c.services[j]? = some (body, p) ∧ IsToEnd i p

/-- A caller takes nobody's connection away that is alive. -/
theorem CallerStep.stored {p p' : Work ε Outcome} {started : List (Work ε Bool)}
    (h : CallerStep connect x w w' p p' started) (hs : Stored g w i) :
    Stored g w' i ∨ (w.connection i).isAlive = false := by
  cases h with
  | looks now hw =>
    obtain ⟨key, name, hs⟩ := hs
    rcases claimNow_cases x w with ⟨_, _, _, -, -, heq⟩ | ⟨_, _, _, -, heq⟩ |
      ⟨registry, heq, hclaims, -⟩
    · rw [hw, heq]
      exact .inl ⟨key, name, hs⟩
    · rw [hw, heq]
      exact .inl ⟨key, name, hs⟩
    · rw [hw, heq]
      exact (hclaims.ready hs).imp_left fun hs' => ⟨key, name, hs'⟩
  | _ => next hw => exact .inl (hw ▸ hs)

/-- A connection in a slot stays there until it has ended, or somebody is about to end it. -/
theorem stored_move (hconnect : Lawful connect) {w : World ε} (hw : w.registry = Registry.empty)
    (run : Run (lasting connect) (Crew.ofState w) moments c)
    (hmove : Move (lasting connect) c a c') (hfinal : Final c.state c'.state)
    (hs : Stored g c.state i) :
    Stored g c'.state i ∨ (c'.state.connection i).isAlive = false ∨ Closing c' i := by
  obtain ⟨P, h⟩ := exists_accounted_lasting hconnect hw run
  -- only clients and services touch the slots, and only a service may take one away
  cases hmove with
  | enter x => exact .inl hs
  | serve hp => exact .inl hs
  | again hk => exact .inl hs
  | outside hout =>
    obtain ⟨key, name, hs⟩ := hs
    exact .inl ⟨key, name, hout.1.1 ▸ hs⟩
  | client hk hstep =>
    have hcaller : Caller connect _ _ := caller_of_run (R := lasting connect) rfl run rfl hk
    exact ((hcaller.step hstep).stored hs).imp_right fun hended => .inl (hfinal i hended)
  | @service j body p p' w' started hk hstep =>
    obtain ⟨key, name, hs⟩ := hs
    have hnew : (c.services.set j (body, p') ++ fresh started)[j]? = some (body, p') := by
      have hlt := (List.getElem?_eq_some_iff.1 hk).1
      rw [List.getElem?_append_left (by simpa using hlt), List.getElem?_set_self hlt]
    obtain ⟨st', hgoes, hp'⟩ := (h.staged.services.follows _ _ _ hk).step hstep h.staged.inv
    cases hgoes with
    | hands hs' =>
      subst hs'
      exact .inl ⟨key, name, hs⟩
    | acts hacts =>
      rcases hacts.ready hs with hs' | hended | hunkept | htrims
      · exact .inl ⟨key, name, hs'⟩
      · exact .inr (.inl (hfinal i hended))
      · exact absurd ⟨key, name, hs⟩ (h.unstored _ _ hunkept i)
      · have hcareful := (careful_of_run hconnect run _ (List.mem_of_getElem? hk)).2
        rcases (hcareful.step hstep).1 htrims key g name i hs with hs' | hended | hto | ⟨e, he⟩
        · exact .inl ⟨key, name, hs'⟩
        · exact .inr (.inl hended)
        · exact .inr (.inr ⟨j, body, p', hnew, hto⟩)
        · -- the creation of the generation has not kept the connection
          refine absurd ⟨key, name, hs⟩ (h.unstored (.service j) g ?_ i)
          have hrole := ends_of_tells c.state hp' he
          rcases hacts.ends_error hrole with hrole | ⟨x, opened, hbefore, -⟩
          · change (P (.service j)).role = _ at hrole
            rw [hrole]
            rfl
          · change P (.service j) = _ at hbefore
            rw [hbefore]
            rfl

/-! ### Connections that live on -/

/-- Whoever is about to end a connection still is after a move, unless it was the one that ended
it. -/
theorem Closing.move {R : Rules (World ε) Ask Outcome} (h : Closing c i) (hmove : Move R c a c')
    (hi : i < c.state.connections.length) :
    Closing c' i ∨ (c'.state.connection i).isAlive = false := by
  obtain ⟨j, body, p, hj, hto⟩ := h
  by_cases ha : a = .service j
  · subst ha
    rcases hmove.service_step hj with rfl | ⟨p', s, started, hstep, rfl⟩
    · cases hto
    · rcases hto.step hstep with hto | ⟨b, hend⟩
      · refine .inl ⟨j, body, p', ?_, hto⟩
        have hlt := (List.getElem?_eq_some_iff.1 hj).1
        rw [List.getElem?_append_left (by simpa using hlt), List.getElem?_set_self hlt]
      · exact .inr (isAlive_beginClosing hi hend)
  · exact .inl ⟨j, body, p, hmove.service_unmoved hj ha, hto⟩

/-- Everybody answers for what `T` says. A connection that is alive is in a slot, or somebody
answers for it, or is about to end it. -/
structure Held (T : Actor → List Nat) (moments : Moments ε) (c : Crew (World ε) Ask Outcome) :
    Prop where
  staged : Staged (tending ε) (fun _ _ _ => True) T c
  opened : ∀ b, ∀ i ∈ T b, OpenedBy moments b i
  living : ∀ b i, OpenedBy moments b i → (c.state.connection i).isAlive = true →
    (∃ g, Stored g c.state i) ∨ (∃ b', i ∈ T b') ∨ Closing c i

theorem held_start (w : World ε) : Held (fun _ => []) [] (Crew.ofState w) where
  staged := staged_ofState trivial
  opened := nofun
  living := nofun

variable {T : Actor → List Nat}

theorem Held.move (hconnect : Lawful connect) (htidy : Tidy connect) {w : World ε}
    (hw : w.registry = Registry.empty)
    (run : Run (lasting connect) (Crew.ofState w) moments c)
    (hmove : Move (lasting connect) c a c') (h : Held T moments c) :
    ∃ T', Held T' (moments ++ [⟨a, c.state, c'.state⟩]) c' := by
  obtain ⟨P, haccount⟩ := exists_accounted_lasting hconnect hw run
  obtain ⟨hands, htends, hstaged⟩ := hmove.staged_acts (obeys_tending htidy) (fun _ _ _ _ h => h)
    h.staged
  change Tends c.state c'.state (T a) hands at htends
  refine ⟨_, hstaged, fun b i hi => ?_, fun b i hopened halive => ?_⟩
  · rw [openedBy_append]
    rcases of_update (i ∈ ·) hi with ⟨rfl, hhands⟩ | ⟨-, hi⟩
    · rcases htends.opened i hhands with hi | hnew
      · exact .inl (h.opened b i hi)
      · exact .inr ⟨rfl, hnew⟩
    · exact .inl (h.opened b i hi)
  · have hnot : (c'.state.connection i).isAlive ≠ false := by simp [halive]
    have hmine (hi : i < c'.state.connections.length)
        (hmine : i ∈ T a ∨ c.state.connections.length ≤ i) : (∃ g, Stored g c'.state i) ∨
          (∃ b', i ∈ Function.update T a hands b') ∨ Closing c' i := by
      rcases htends.accounted i hi hmine with hi | hended | hstored
      · exact .inr (.inl ⟨a, by rwa [Function.update_self]⟩)
      · exact absurd hended hnot
      · exact .inl hstored
    -- a connection that is opened by this move is in the hands of the one that opened it
    rcases openedBy_append.1 hopened with hopened | ⟨-, hle, hlt⟩
    · have hlt := haccount.opened_lt b i hopened
      have hbefore : (c.state.connection i).isAlive = true := by
        by_contra hended
        exact hnot (htends.final i (by simpa using hended))
      rcases h.living b i hopened hbefore with ⟨g, hstored⟩ | ⟨b', hb'⟩ | hclosing
      · rcases stored_move hconnect hw run hmove htends.final hstored with hs | hended | hto
        · exact .inl ⟨g, hs⟩
        · exact absurd hended hnot
        · exact .inr (.inr hto)
      · by_cases hba : b' = a
        · subst hba
          exact hmine (Nat.lt_of_lt_of_le hlt htends.length_le) (.inl hb')
        · exact .inr (.inl ⟨b', by rwa [Function.update_of_ne hba]⟩)
      · rcases hclosing.move hmove hlt with hto | hended
        · exact .inr (.inr hto)
        · exact absurd hended hnot
    · exact hmine hlt (.inr hle)

theorem exists_held (hconnect : Lawful connect) (htidy : Tidy connect) {w : World ε}
    (hw : w.registry = Registry.empty)
    (run : Run (lasting connect) (Crew.ofState w) moments c) : ∃ T, Held T moments c := by
  induction run with
  | nil => exact ⟨_, held_start w⟩
  | move run hmove ih =>
    obtain ⟨T, h⟩ := ih
    exact h.move hconnect htidy hw run hmove

/-- A connection that was opened and is alive is in a slot, or the creation that has opened it goes
on, or somebody is about to end it. -/
theorem living_of_opened (hconnect : Lawful connect) (htidy : Tidy connect) {w : World ε}
    (hw : w.registry = Registry.empty)
    (run : Run (lasting connect) (Crew.ofState w) moments c) (hopened : OpenedBy moments a i)
    (halive : (c.state.connection i).isAlive = true) :
    (∃ g, Stored g c.state i) ∨ (∃ (j : Nat) (x : Ask) (g : Nat) (p : Work ε Bool),
      c.services[j]? = some (creation connect x g, p) ∧ p.result? = none) ∨ Closing c i := by
  obtain ⟨T, h⟩ := exists_held hconnect htidy hw run
  refine (h.living a i hopened halive).imp_right (Or.imp_left ?_)
  rintro ⟨b, hb⟩
  obtain ⟨P, haccount⟩ := exists_accounted_lasting hconnect hw run
  obtain ⟨g, hg⟩ := Option.ne_none_iff_exists'.1 (haccount.opener b i (h.opened b i hb))
  obtain ⟨x, hx⟩ : ∃ x, (P b).ask = some x := by
    refine Option.ne_none_iff_exists'.1 fun hnone => ?_
    rw [haccount.roleless b hnone] at hg
    cases hg
  obtain ⟨j, p, rfl, hj⟩ := (haccount.asker b x hx).service hg
  refine ⟨j, x, g, p, hj, ?_⟩
  by_contra hdone
  obtain ⟨again, hagain⟩ := Option.ne_none_iff_exists'.1 hdone
  -- a creation that is over answers for nothing
  have hends := h.staged.services.follows _ _ _ hj
  rw [eq_done_of_result? hagain] at hends
  have hnil : T (.service j) = [] := hends.1.1
  rw [hnil] at hb
  cases hb

end LspClient.Registry
