import LspClient.Proofs.Registry.Actions

/-!
# The account of a registry

What is true of a registry all along a run, and of what everybody has done so far. Each generation
is owned by one party, the caller that has claimed it or the creation that it was handed over to
(`Account.owner_unique`), and so is each connection that was opened (`Account.opener_unique`). A
slot is filed under the key of the one who owns its generation, and one that is ready has a
connection that the creation has opened (`Account.ordered`).
-/

namespace LspClient.Registry

open Program Crew

variable {ε : Type} {connect : Connector ε} {w w' : World ε} {st st' : Stage} {g : Nat}
  {key : ConnectionKey}

/-! ### What is seen of a run -/

abbrev Moments (ε : Type) := List (Moment (World ε))

/-- A client of the crew asks for this. -/
def Asks (c : Crew (World ε) Ask Outcome) (k : Nat) (x : Ask) : Prop :=
  ∃ p, c.clients[k]? = some (x, p)

/-- The actor has opened a connection. -/
def OpenedBy (moments : Moments ε) (a : Actor) (i : Nat) : Prop :=
  ∃ m ∈ moments, m.actor = a ∧ m.before.connections.length ≤ i ∧
    i < m.after.connections.length

/-- There is a slot of the generation for the connection. -/
def Stored (g : Nat) (w : World ε) (i : Nat) : Prop :=
  ∃ key name, w.registry.slot? key = some (.ready g name i)

/-- The actor has found a creation under way, or has claimed the key for it. -/
def WaitedFor (moments : Moments ε) (a : Actor) (key : ConnectionKey) (g : Nat) : Prop :=
  ∃ m ∈ moments, m.actor = a ∧
    ((∃ name fileTypes, m.before.registry.slot? key = some (.starting g name fileTypes)) ∨
      Claims key g m.before m.after)

/-- One of the callers has claimed its key for a generation. -/
def Begun (moments : Moments ε) (c : Crew (World ε) Ask Outcome) (x : Ask) (g : Nat) : Prop :=
  ∃ m ∈ moments, ∃ k, m.actor = .client k ∧ Asks c k x ∧ Claims x.key g m.before m.after

/-- What one has gone through to come to one's role. -/
def Past (moments : Moments ε) (c : Crew (World ε) Ask Outcome) (a : Actor) (x : Ask) :
    Role → Prop
  | .none => True
  | .refused => c.state.registry.isShutDown = true
  | .found i => ∃ m ∈ moments, m.actor = a ∧ ∃ g name,
      m.before.registry.slot? x.key = some (.ready g name i) ∧
        (m.before.connection i).isAlive = true
  | .claimed g => ∃ m ∈ moments, m.actor = a ∧ Claims x.key g m.before m.after
  | .waits g => WaitedFor moments a x.key g
  | .heard g r => WaitedFor moments a x.key g ∧ c.state.registry.outcomes.get? g = some r
  | .left g e => WaitedFor moments a x.key g ∧
      ∃ m ∈ moments, m.actor = a ∧ GivesUp x m.before e
  | .creates g => Begun moments c x g
  | .ends g _ => Begun moments c x g
  | .told g => Begun moments c x g

variable {moments moments' : Moments ε} {c c' : Crew (World ε) Ask Outcome} {a : Actor} {x : Ask}

theorem OpenedBy.mono {i : Nat} (hsub : moments ⊆ moments') (h : OpenedBy moments a i) :
    OpenedBy moments' a i :=
  let ⟨m, hm, hi⟩ := h
  ⟨m, hsub hm, hi⟩

theorem WaitedFor.mono (hsub : moments ⊆ moments') (h : WaitedFor moments a key g) :
    WaitedFor moments' a key g :=
  let ⟨m, hm, hg⟩ := h
  ⟨m, hsub hm, hg⟩

/-- What lasts from one crew to a later one. -/
structure Lasts (moments moments' : Moments ε) (c c' : Crew (World ε) Ask Outcome) : Prop where
  moments : moments ⊆ moments'
  asks : ∀ k x, Asks c k x → Asks c' k x
  isShutDown : c.state.registry.isShutDown = true → c'.state.registry.isShutDown = true
  outcomes : ∀ g r, c.state.registry.outcomes.get? g = some r →
    c'.state.registry.outcomes.get? g = some r

theorem Begun.mono (hlasts : Lasts moments moments' c c') (h : Begun moments c x g) :
    Begun moments' c' x g :=
  let ⟨m, hm, k, hactor, hasks, hclaims⟩ := h
  ⟨m, hlasts.moments hm, k, hactor, hlasts.asks k x hasks, hclaims⟩

theorem Past.mono {role : Role} (hlasts : Lasts moments moments' c c')
    (h : Past moments c a x role) : Past moments' c' a x role := by
  have hmem {p : Moment (World ε) → Prop} (h : ∃ m ∈ moments, p m) : ∃ m ∈ moments', p m :=
    let ⟨m, hm, hp⟩ := h
    ⟨m, hlasts.moments hm, hp⟩
  cases role with
  | none => trivial
  | refused => exact hlasts.isShutDown h
  | found i => exact hmem h
  | claimed g => exact hmem h
  | waits g => exact WaitedFor.mono hlasts.moments h
  | heard g r => exact ⟨WaitedFor.mono hlasts.moments h.1, hlasts.outcomes g r h.2⟩
  | left g e => exact ⟨WaitedFor.mono hlasts.moments h.1, hmem h.2⟩
  | creates g => exact Begun.mono hlasts h
  | ends g r => exact Begun.mono hlasts h
  | told g => exact Begun.mono hlasts h

/-- Every slot is filed under the key of the one who owns its generation, and the connection of
one that is ready was opened by the creation. -/
structure Ordered (P : Actor → Stage) (moments : Moments ε) (w : World ε) : Prop where
  filed : ∀ key s, w.registry.slot? key = some s →
    ∃ a x, (P a).ask = some x ∧ (P a).role.owned? = some s.generation ∧ x.key.Same key
  kept : ∀ key g name i, w.registry.slot? key = some (.ready g name i) →
    ∃ j, (P (.service j)).role.created? = some g ∧ OpenedBy moments (.service j) i

/-- An asker is a caller, or a creation. -/
def IsAsker (connect : Connector ε) (c : Crew (World ε) Ask Outcome) (a : Actor) (x : Ask)
    (role : Role) : Prop :=
  (∃ k, a = .client k ∧ Asks c k x ∧ role.created? = none) ∨
    ∃ j g p, a = .service j ∧ role.created? = some g ∧
      c.services[j]? = some (creation connect x g, p)

/-- Somebody is to see to the creation, or sees to it. -/
def SeenTo (P : Actor → Stage) (g : Nat) : Prop :=
  ∃ a, (P a).role = .claimed g ∨ (P a).role = .creates g

/-- What is true of a registry, and of all parties, after a run. -/
structure Account (connect : Connector ε) (P : Actor → Stage) (moments : Moments ε)
    (c : Crew (World ε) Ask Outcome) : Prop where
  asker : ∀ a x, (P a).ask = some x → IsAsker connect c a x (P a).role
  roleless : ∀ a, (P a).ask = none → (P a).role = .none
  past : ∀ a x, (P a).ask = some x → Past moments c a x (P a).role
  owner_unique : ∀ a a' g, (P a).role.owned? = some g → (P a').role.owned? = some g → a = a'
  owner_lt : ∀ a g, (P a).role.owned? = some g → g < c.state.registry.nextGeneration
  acted : ∀ m ∈ moments, ∃ st st', Acts m.before m.after st st'
  ordered : Ordered P moments c.state
  orderedPast : ∀ m ∈ moments, Ordered P moments m.before ∧ Ordered P moments m.after
  untold : ∀ a g, (P a).role.owned? = some g → (P a).role ≠ .told g →
    c.state.registry.outcomes.get? g = none
  outcome_lt : ∀ g r, c.state.registry.outcomes.get? g = some r →
    g < c.state.registry.nextGeneration
  stored : ∀ g i, c.state.registry.outcomes.get? g = some (.ok i) ∨
    (∃ a, (P a).role = .ends g (.ok i)) → ∃ m ∈ moments, Stored g m.after i
  unstored : ∀ a g, (P a).role.unkept? = some g → ∀ i, ¬ Stored g c.state i
  starting : ∀ key g name fileTypes,
    c.state.registry.slot? key = some (.starting g name fileTypes) →
      SeenTo P g ∨ c.state.registry.isShutDown = true
  failed : ∀ g e, c.state.registry.outcomes.get? g = some (.error e) ∨
    (∃ a, (P a).role = .ends g (.error e)) →
    Absent g c.state ∨ c.state.registry.isShutDown = true
  opened_lt : ∀ a i, OpenedBy moments a i → i < c.state.connections.length
  opener_unique : ∀ a a' i, OpenedBy moments a i → OpenedBy moments a' i → a = a'
  opened : ∀ a, ∀ i ∈ (P a).opened, OpenedBy moments a i
  opener : ∀ a i, OpenedBy moments a i → (P a).role.created? ≠ none
  claimed : ∀ m ∈ moments,
    m.after.registry.nextGeneration ≠ m.before.registry.nextGeneration →
    ∃ k x, m.actor = .client k ∧ Asks c k x ∧
      Claims x.key m.before.registry.nextGeneration m.before m.after
  told : ∀ m ∈ moments, ∀ g,
    m.after.registry.outcomes.get? g ≠ m.before.registry.outcomes.get? g →
    m.before.registry.outcomes.get? g = none ∧ (P m.actor).role = .told g

/-! ### Going on -/

theorem Role.owned?_of_unkept? {role : Role} (h : role.unkept? = some g) :
    role.owned? = some g := by
  cases role with
  | claimed => exact h
  | creates => exact h
  | ends g' r =>
    cases r with
    | error => exact h
    | ok => cases h
  | _ => cases h

variable {P P' : Actor → Stage}

theorem openedBy_append {m : Moment (World ε)} {i : Nat} :
    OpenedBy (moments ++ [m]) a i ↔ OpenedBy moments a i ∨
      (m.actor = a ∧ m.before.connections.length ≤ i ∧ i < m.after.connections.length) := by
  constructor
  · rintro ⟨m', hm', hi⟩
    rcases List.mem_append.1 hm' with hm' | hm'
    · exact .inl ⟨m', hm', hi⟩
    · obtain rfl := List.mem_singleton.1 hm'
      exact .inr hi
  · rintro (h | hi)
    · exact h.mono (List.subset_append_left _ _)
    · exact ⟨m, List.mem_append_right _ (List.mem_singleton_self m), hi⟩

theorem Ordered.mono (hsub : moments ⊆ moments')
    (hP : ∀ b y g, (P b).ask = some y → (P b).role.owned? = some g →
      ∃ b', (P' b').ask = some y ∧ (P' b').role.owned? = some g)
    (hcreated : ∀ b, (P b).role.created? ≠ none → (P' b).role.created? = (P b).role.created?)
    (h : Ordered P moments w) : Ordered P' moments' w := by
  constructor
  case filed =>
    intro key s hs
    obtain ⟨b, y, hb, hg, hsame⟩ := h.filed key s hs
    obtain ⟨b', hb', hg'⟩ := hP b y s.generation hb hg
    exact ⟨b', y, hb', hg', hsame⟩
  case kept =>
    intro key g name i hs
    obtain ⟨j, hj, hopened⟩ := h.kept key g name i hs
    refine ⟨j, ?_, hopened.mono hsub⟩
    rw [hcreated _ (by rw [hj]; nofun), hj]

theorem Ordered.of_trims (h : Ordered P moments w) (ht : Trims w.registry w'.registry) :
    Ordered P moments w' :=
  ⟨fun key s hs => h.filed key s (ht.slot? key s hs),
    fun key g name i hs => h.kept key g name i (ht.slot? key _ hs)⟩

theorem Asks.move {k : Nat} (h : Asks c k x) (hmove : Move (rules connect) c a c') :
    Asks c' k x :=
  let ⟨_, hp⟩ := h
  hmove.client_stays hp

theorem IsAsker.move {role : Role} (h : IsAsker connect c a x role) {b : Actor}
    (hmove : Move (rules connect) c b c') : IsAsker connect c' a x role := by
  rcases h with ⟨k, rfl, hasks, hcreated⟩ | ⟨j, g, p, rfl, hcreated, hbody⟩
  · exact .inl ⟨k, rfl, hasks.move hmove, hcreated⟩
  · obtain ⟨q, hq⟩ := hmove.service_stays hbody
    exact .inr ⟨j, g, q, rfl, hcreated, hq⟩

/-- One who claims a key is a caller. -/
theorem IsAsker.client {role : Role} (h : IsAsker connect c a x role)
    (hrole : role.created? = none) : ∃ k, a = .client k ∧ Asks c k x := by
  rcases h with ⟨k, rfl, hasks, -⟩ | ⟨j, g, p, rfl, hcreated, -⟩
  · exact ⟨k, rfl, hasks⟩
  · cases hrole.symm.trans hcreated

/-- A creation is a service, and has its body. -/
theorem IsAsker.service {role : Role} (h : IsAsker connect c a x role)
    (hrole : role.created? = some g) :
    ∃ j p, a = .service j ∧ c.services[j]? = some (creation connect x g, p) := by
  rcases h with ⟨k, rfl, -, hcreated⟩ | ⟨j, g', p, rfl, hcreated, hbody⟩
  · cases hrole.symm.trans hcreated
  · cases hrole.symm.trans hcreated
    exact ⟨j, p, rfl, hbody⟩

end LspClient.Registry
