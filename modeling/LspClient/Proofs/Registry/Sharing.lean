import LspClient.Proofs.Program.Playing
import LspClient.Proofs.Registry.Accounted

/-!
# One creation for each generation

However callers, creations, watches and those who take connections down are interleaved
(`shared`): a creation is begun only for a key that has no slot, or one whose connection is not
alive; its outcome is told once, and it is what a caller gets who waits for it to the end; it
changes no slot of another generation, and neither does its watch. A connection whose slot was
gone when its creation came to an end is never in a slot and is given to nobody, and a creation
that fails leaves no slot.
-/

namespace LspClient.Registry

open Program Crew

variable {ε : Type} {connect : Connector ε} {w : World ε} {moments : Moments ε}
  {c : Crew (World ε) Ask Outcome}

/-- What a caller may be answered. -/
inductive Answer (moments : Moments ε) (c : Crew (World ε) Ask Outcome) (k : Nat) (x : Ask) :
    Outcome → Prop
  | refused (h : c.state.registry.isShutDown = true) :
      Answer moments c k x (.error (.connectionClosed x.name none))
  | found {m : Moment (World ε)} {g i : Nat} {name : String} (hm : m ∈ moments)
      (hactor : m.actor = .client k)
      (hslot : m.before.registry.slot? x.key = some (.ready g name i))
      (halive : (m.before.connection i).isAlive = true) : Answer moments c k x (.ok i)
  /-- The outcome of the creation that the caller has waited for. -/
  | heard {g : Nat} {r : Outcome} (h : WaitedFor moments (.client k) x.key g)
      (hr : c.state.registry.outcomes.get? g = some r) : Answer moments c k x r
  | left {m : Moment (World ε)} {g : Nat} {e : Failure}
      (h : WaitedFor moments (.client k) x.key g) (hm : m ∈ moments)
      (hactor : m.actor = .client k) (he : GivesUp x m.before e) :
      Answer moments c k x (.error e)

/-- The program of a creation of the generation, or of the watch that it has started. -/
inductive WorksFor (connect : Connector ε) (g : Nat) : Work ε Bool → Prop
  | creation (x : Ask) : WorksFor connect g (creation connect x g)
  | watch (key : ConnectionKey) (i : Nat) : WorksFor connect g (once (watch key g i))

/-- The connection was opened by the creation that is the service `j`, for a slot that was gone at
the moment `m`, and it had been in no slot until then. -/
structure Late (creations : Nat → Option (Ask × Nat)) (i : Nat) (earlier : Moments ε)
    (m : Moment (World ε)) (later : Moments ε) (j : Nat) (x : Ask) (g : Nat) : Prop where
  creation : creations j = some (x, g)
  opened : OpenedBy (earlier ++ m :: later) (.service j) i
  claimed : g < m.before.registry.nextGeneration
  gone : m.before.registry.isCurrent x.key g = false
  unstored : ∀ m' ∈ earlier, ∀ g', ¬ Stored g' m'.after i

/-- How callers share the connections of a registry. The services that are creations are given with
what they are for. -/
structure Shared (connect : Connector ε) (creations : Nat → Option (Ask × Nat))
    (moments : Moments ε) (c : Crew (World ε) Ask Outcome) : Prop where
  /-- A generation begins where a caller claims its key. -/
  claimed : ∀ m ∈ moments,
    m.after.registry.nextGeneration ≠ m.before.registry.nextGeneration →
    ∃ k x, m.actor = .client k ∧ Asks c k x ∧
      Claims x.key m.before.registry.nextGeneration m.before m.after
  begun : ∀ j x g, creations j = some (x, g) →
    (∃ p, c.services[j]? = some (creation connect x g, p)) ∧ Begun moments c x g
  once : ∀ j j' x x' g, creations j = some (x, g) → creations j' = some (x', g) → j = j'
  /-- Nobody but a creation has a connection opened. -/
  opened : ∀ a i, OpenedBy moments a i →
    ∃ j x g, a = .service j ∧ creations j = some (x, g)
  told : ∀ m ∈ moments, ∀ g,
    m.after.registry.outcomes.get? g ≠ m.before.registry.outcomes.get? g →
    m.before.registry.outcomes.get? g = none ∧
      ∃ j x, m.actor = .service j ∧ creations j = some (x, g)
  toldOk : ∀ g i, c.state.registry.outcomes.get? g = some (.ok i) →
    ∃ j x, creations j = some (x, g) ∧ OpenedBy moments (.service j) i
  answered : ∀ k x r, c.clients[k]? = some (x, .done r) → Answer moments c k x r
  spares : ∀ m ∈ moments, ∀ j g body p, m.actor = .service j →
    c.services[j]? = some (body, p) → WorksFor connect g body → Spares g m.before m.after
  late : ∀ i earlier m later j x g, moments = earlier ++ m :: later →
    Late creations i earlier m later j x g →
    (∀ m' ∈ moments, ∀ g', ¬ Stored g' m'.after i) ∧
      ∀ (k : Nat) (y : Ask) (r : Outcome), c.clients[k]? = some (y, .done r) → r ≠ .ok i
  /-- A creation whose connector has failed leaves no slot with its next move. -/
  failed : ∀ j x g e body c', creations j = some (x, g) →
    c.services[j]? = some (body, Program.once (finish x.key g x.name (.error e))) →
    Move (rules connect) c (.service j) c' → Absent g c'.state
  toldError : ∀ g e, c.state.registry.outcomes.get? g = some (.error e) →
    Absent g c.state ∨ c.state.registry.isShutDown = true
  /-- A slot that is gone does not come back. -/
  gone : ∀ earlier m later g, moments = earlier ++ m :: later →
    g < m.before.registry.nextGeneration → Absent g m.before → Absent g c.state

/-! ### What the account says -/

/-- The services that have a creation to see to. -/
def creationsOf (P : Actor → Stage) (j : Nat) : Option (Ask × Nat) :=
  (P (.service j)).ask.bind fun x => (P (.service j)).role.created?.map fun g => (x, g)

variable {P : Actor → Stage} {j g : Nat} {x : Ask}

theorem creationsOf_eq_some : creationsOf P j = some (x, g) ↔
    (P (.service j)).ask = some x ∧ (P (.service j)).role.created? = some g := by
  unfold creationsOf
  constructor
  · intro h
    obtain ⟨y, hy, h⟩ := Option.bind_eq_some_iff.1 h
    obtain ⟨g', hg', heq⟩ := Option.map_eq_some_iff.1 h
    cases heq
    exact ⟨hy, hg'⟩
  · rintro ⟨hx, hg⟩
    rw [hx, hg]
    rfl

theorem owned?_of_created? {role : Role} (h : role.created? = some g) :
    role.owned? = some g := by
  cases role <;> first | exact h | cases h

/-- What comes and goes with the generations lasts from one state to a later one. -/
def Wanes (w w' : World ε) : Prop :=
  ∀ g, g < w.registry.nextGeneration → Absent g w →
    g < w'.registry.nextGeneration ∧ Absent g w'

theorem Acts.wanes {w' : World ε} {st st' : Stage} (h : Acts w w' st st') : Wanes w w' :=
  fun _ hlt habsent => ⟨Nat.lt_of_lt_of_le hlt h.nextGeneration_le, h.absent hlt habsent⟩

namespace Accounted

variable (h : Accounted connect P moments c)

include h

theorem exists_creation {g : Nat} (hg : (P (.service j)).role.created? = some g) :
    ∃ x, creationsOf P j = some (x, g) := by
  cases hask : (P (.service j)).ask with
  | none =>
    rw [h.roleless _ hask] at hg
    cases hg
  | some x => exact ⟨x, creationsOf_eq_some.2 ⟨hask, hg⟩⟩

theorem begun (hj : creationsOf P j = some (x, g)) :
    (∃ p, c.services[j]? = some (creation connect x g, p)) ∧ Begun moments c x g := by
  obtain ⟨hask, hg⟩ := creationsOf_eq_some.1 hj
  obtain ⟨j', p, hj', hbody⟩ := (h.asker _ x hask).service hg
  obtain rfl := Actor.service.inj hj'
  refine ⟨⟨p, hbody⟩, ?_⟩
  have hpast := h.past _ x hask
  -- the creation is at work, or at its end, or has told of it
  cases hrole : (P (.service j)).role with
  | creates g' =>
    rw [hrole] at hg hpast
    cases hg
    exact hpast
  | ends g' r =>
    rw [hrole] at hg hpast
    cases hg
    exact hpast
  | told g' =>
    rw [hrole] at hg hpast
    cases hg
    exact hpast
  | _ =>
    rw [hrole] at hg
    cases hg

theorem once {j' : Nat} {x' : Ask} (hj : creationsOf P j = some (x, g))
    (hj' : creationsOf P j' = some (x', g)) : j = j' := by
  have hg := owned?_of_created? (creationsOf_eq_some.1 hj).2
  have hg' := owned?_of_created? (creationsOf_eq_some.1 hj').2
  exact Actor.service.inj (h.owner_unique _ _ g hg hg')

theorem opened_by {a : Actor} {i : Nat} (hi : OpenedBy moments a i) :
    ∃ j x g, a = .service j ∧ creationsOf P j = some (x, g) := by
  obtain ⟨g, hg⟩ := Option.ne_none_iff_exists'.1 (h.opener a i hi)
  cases hask : (P a).ask with
  | none =>
    rw [h.roleless _ hask] at hg
    cases hg
  | some x =>
    obtain ⟨j, p, rfl, -⟩ := (h.asker a x hask).service hg
    exact ⟨j, x, g, rfl, creationsOf_eq_some.2 ⟨hask, hg⟩⟩

theorem told_by {m : Moment (World ε)} (hm : m ∈ moments)
    (hne : m.after.registry.outcomes.get? g ≠ m.before.registry.outcomes.get? g) :
    m.before.registry.outcomes.get? g = none ∧
      ∃ j x, m.actor = .service j ∧ creationsOf P j = some (x, g) := by
  obtain ⟨hnone, htold⟩ := h.told m hm g hne
  refine ⟨hnone, ?_⟩
  cases hask : (P m.actor).ask with
  | none =>
    rw [h.roleless _ hask] at htold
    cases htold
  | some x =>
    have hg : (P m.actor).role.created? = some g := by
      rw [htold]
      rfl
    obtain ⟨j, p, hj, -⟩ := (h.asker _ x hask).service hg
    rw [hj] at hask hg
    exact ⟨j, x, hj, creationsOf_eq_some.2 ⟨hask, hg⟩⟩

/-- The connection of a slot was opened by the creation of its generation. -/
theorem opened_of_stored {m : Moment (World ε)} {i : Nat} (hm : m ∈ moments)
    (hi : Stored g m.after i) :
    ∃ j x, creationsOf P j = some (x, g) ∧ OpenedBy moments (.service j) i := by
  obtain ⟨key, name, hs⟩ := hi
  obtain ⟨j, hj, hopened⟩ := (h.orderedPast m hm).2.kept key g name i hs
  obtain ⟨x, hx⟩ := h.exists_creation hj
  exact ⟨j, x, hx, hopened⟩

theorem told_ok {i : Nat} (hok : c.state.registry.outcomes.get? g = some (.ok i)) :
    ∃ j x, creationsOf P j = some (x, g) ∧ OpenedBy moments (.service j) i :=
  let ⟨_, hm, hi⟩ := h.stored g i (.inl hok)
  h.opened_of_stored hm hi

theorem answered {k : Nat} {r : Outcome} (hk : c.clients[k]? = some (x, .done r)) :
    Answer moments c k x r := by
  obtain ⟨hask, hended⟩ : Ended x (P (.client k)) r := h.staged.clients.follows k x _ hk
  have hpast := h.past (.client k) x hask
  -- a caller that is done was refused, found the connection, heard of it or left
  cases hrole : (P (.client k)).role with
  | refused =>
    rw [hrole] at hended hpast
    rw [show r = .error (.connectionClosed x.name none) from hended]
    exact .refused hpast
  | found i =>
    rw [hrole] at hended hpast
    obtain ⟨m, hm, hactor, g, name, hslot, halive⟩ := hpast
    rw [show r = .ok i from hended]
    exact .found hm hactor hslot halive
  | heard g r' =>
    rw [hrole] at hended hpast
    rw [show r = r' from hended]
    exact .heard hpast.1 hpast.2
  | left g e =>
    rw [hrole] at hended hpast
    obtain ⟨hwaited, m, hm, hactor, he⟩ := hpast
    rw [show r = .error e from hended]
    exact .left hwaited hm hactor he
  | _ =>
    rw [hrole] at hended
    exact hended.elim

/-- A slot of a generation is under the key that the creation is for. -/
theorem absent_of_not_isCurrent {v : World ε} (hv : Ordered P moments v)
    (hj : creationsOf P j = some (x, g)) (hcurrent : v.registry.isCurrent x.key g = false) :
    Absent g v := by
  intro key s hs hg
  obtain ⟨hask, hcreated⟩ := creationsOf_eq_some.1 hj
  obtain ⟨b, y, hb, hbg, hsame⟩ := hv.filed key s hs
  obtain rfl := h.owner_unique b (.service j) g (hg ▸ hbg) (owned?_of_created? hcreated)
  rw [hask] at hb
  cases hb
  have hcur : v.registry.isCurrent x.key g = true := by
    refine isCurrent_iff.2 ⟨s, ?_, hg⟩
    rw [slot?_congr _ hsame, hs]
  cases hcurrent.symm.trans hcur

theorem gone (run : Run (rules connect) (Crew.ofState w) moments c) {earlier later : Moments ε}
    {m : Moment (World ε)} (hmoments : moments = earlier ++ m :: later)
    (hlt : g < m.before.registry.nextGeneration) (habsent : Absent g m.before) :
    Absent g c.state ∧ ∀ m' ∈ m :: later, Absent g m'.after := by
  subst hmoments
  obtain ⟨hstate, hafter⟩ := run.chain_from (G := Wanes) (fun _ _ hlt habsent => ⟨hlt, habsent⟩)
    (fun _ _ _ h h' g hlt habsent => h' g (h g hlt habsent).1 (h g hlt habsent).2)
    fun m' hm' => let ⟨_, _, hacts⟩ := h.acted m' hm'; hacts.wanes
  exact ⟨(hstate g hlt habsent).2, fun m' hm' => (hafter m' hm' g hlt habsent).2⟩

/-- A connection whose slot was gone is never in a slot. -/
theorem unstored_of_late (run : Run (rules connect) (Crew.ofState w) moments c)
    {earlier later : Moments ε} {m : Moment (World ε)} {i : Nat}
    (hmoments : moments = earlier ++ m :: later)
    (hlate : Late (creationsOf P) i earlier m later j x g) :
    ∀ m' ∈ moments, ∀ g', ¬ Stored g' m'.after i := by
  have hm : m ∈ moments := by simp [hmoments]
  have habsent := h.absent_of_not_isCurrent (h.orderedPast m hm).1 hlate.creation hlate.gone
  have hafter := (h.gone run hmoments hlate.claimed habsent).2
  intro m' hm' g' hstored
  obtain ⟨j', x', hj', hopened⟩ := h.opened_of_stored hm' hstored
  have hjj' := h.opener_unique _ _ i hopened (hmoments ▸ hlate.opened)
  obtain rfl := Actor.service.inj hjj'
  cases hj'.symm.trans hlate.creation
  rw [hmoments] at hm'
  rcases List.mem_append.1 hm' with hm' | hm'
  · exact hlate.unstored m' hm' g hstored
  · obtain ⟨key, name, hs⟩ := hstored
    exact hafter m' hm' key _ hs rfl

/-- A connection that was in no slot is given to nobody. -/
theorem not_given_of_unstored (hw : w.registry = Registry.empty)
    (run : Run (rules connect) (Crew.ofState w) moments c) {i k : Nat}
    {r : Outcome} (hunstored : ∀ m ∈ moments, ∀ g, ¬ Stored g m.after i)
    (hk : c.clients[k]? = some (x, .done r)) : r ≠ .ok i := by
  intro hr
  cases h.answered hk with
  | refused => cases hr
  | @found m g i' name hm _ hslot _ =>
    cases hr
    rcases run.before_cases hm with heq | ⟨m', hm', heq⟩
    · change m.before = w at heq
      rw [heq, hw] at hslot
      cases hslot
    · exact hunstored m' hm' g ⟨x.key, name, heq ▸ hslot⟩
  | heard _ houtcome =>
    subst hr
    obtain ⟨m, hm, hstored⟩ := h.stored _ i (.inl houtcome)
    exact hunstored m hm _ hstored
  | left => cases hr

theorem absent_of_failed {e : Failure} {body : Work ε Bool} {c' : Crew (World ε) Ask Outcome}
    (hj : creationsOf P j = some (x, g))
    (hfails : c.services[j]? = some (body, Program.once (finish x.key g x.name (.error e))))
    (hmove : Move (rules connect) c (.service j) c') : Absent g c'.state := by
  cases hmove with
  | serve _ =>
    rw [List.getElem?_eq_none (Nat.le_refl _)] at hfails
    cases hfails
  | service hk hstep =>
    rw [hfails] at hk
    cases hk
    have hsettles : Step c.state (Program.locked (step fun r =>
        r.settle x.key g x.name (.error e)) >>= fun _ =>
          Program.once (tellWaiting g (.error e))) _ _ _ := hstep
    obtain ⟨rfl, -, -⟩ := step_locked_bind.1 hsettles
    have hordered : Ordered P moments
        (step (fun r => r.settle x.key g x.name (.error e)) c.state).2 :=
      h.ordered.of_trims (trims_settle_error h.staged.inv x.key g x.name e)
    exact h.absent_of_not_isCurrent hordered hj
      (isCurrent_settle_error c.state.registry x.key g x.name e)
  | again hk =>
    rw [hfails] at hk
    cases hk

end Accounted

/-! ### Every run -/

theorem shared (hconnect : Lawful connect) (hw : w.registry = Registry.empty)
    (run : Run (rules connect) (Crew.ofState w) moments c) :
    ∃ creations, Shared connect creations moments c := by
  obtain ⟨P, h⟩ := exists_accounted hconnect hw run
  refine ⟨creationsOf P, ?_⟩
  exact {
    claimed := h.claimed
    begun := fun j x g => h.begun
    once := fun j j' x x' g => h.once
    opened := fun a i => h.opened_by
    told := fun m hm g => h.told_by hm
    toldOk := fun g i => h.told_ok
    answered := fun k x r => h.answered
    spares := fun m hm j g body p hactor hbody hworks => by
      refine (run.keeps_service (fun w => SparesOthers.refl g w.registry) rfl).2 m hm j body p
        hactor hbody ?_
      cases hworks with
      | creation x => exact (spares_create hconnect x.key x.name x.config).once
      | watch key i => exact (spares_watch key i).once
    late := fun i earlier m later j x g hmoments hlate => by
      have hunstored := h.unstored_of_late run hmoments hlate
      exact ⟨hunstored, fun k x' r => h.not_given_of_unstored hw run hunstored⟩
    failed := fun j x g e body c' => h.absent_of_failed
    toldError := fun g e he => h.failed g e (.inl he)
    gone := fun earlier m later g hmoments hlt habsent =>
      (h.gone run hmoments hlt habsent).1 }

/-! ### A slot that is taken out meanwhile -/

/-- A connector over the two pipes that there are, without a handshake. -/
def overPipes : Connector Unit := fun name config cwd => do
  let i ← Connection.start (ConnectionOptions.ofServer name config cwd 30000) 0 1 none
  return .ok i

theorem lawful_overPipes : Lawful overPipes := fun _ _ _ =>
  opening_start.bind fun _ _ hopened _ hj => by
    cases hj
    exact hopened

def twoPipes : World Unit :=
  { World.ofFiles FileTree.empty () with pipes := [Pipe.empty, Pipe.empty] }

def someAsk : Ask := ⟨"server", default, ⟨"/"⟩, none, Token.never⟩

/-- The server closes its end of the pipe. -/
def hangUp : World Unit → World Unit := World.onPipe 0 Pipe.closeSource

theorem outside_hangUp (w : World Unit) : (rules overPipes).Outside w (hangUp w) := ⟨rfl, rfl⟩

/-- The server of a creation is shut down while it goes on; its caller is turned down, and the next
one gets a connection of its own. -/
def removedMeanwhile : List (Choice (rules overPipes)) :=
  [.enter someAsk] ++ List.replicate 4 (.client 0) ++
  [.serve _ (.shutdownNamed "server")] ++ List.replicate 2 (.service 1) ++
  List.replicate 3 (.service 0) ++ [.outside hangUp outside_hangUp] ++
  List.replicate 7 (.service 3) ++ List.replicate 12 (.service 0) ++ [.service 2] ++
  List.replicate 2 (.service 0) ++ [.client 0, .enter someAsk] ++
  List.replicate 4 (.client 1) ++ List.replicate 6 (.service 4) ++ [.client 1]

theorem shared_removedMeanwhile :
    (play removedMeanwhile ([], Crew.ofState twoPipes)).2.clients.map (fun e => e.2.result?) =
        [some (.error (.connectionClosed "server" none)), some (.ok 1)] ∧
      ∃ creations, Shared overPipes creations
        (play removedMeanwhile ([], Crew.ofState twoPipes)).1
        (play removedMeanwhile ([], Crew.ofState twoPipes)).2 :=
  ⟨by rfl, shared lawful_overPipes rfl (run_play removedMeanwhile .nil)⟩

end LspClient.Registry
