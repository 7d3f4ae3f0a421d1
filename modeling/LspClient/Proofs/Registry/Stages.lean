import LspClient.Proofs.Program.Crew
import LspClient.Proofs.Registry.Connectors
import LspClient.Proofs.Registry.Slots

/-!
# Callers and creations

What the programs of the registry do to it. A caller is refused, finds a connection, or waits for a
generation, which it may have claimed for its key; then it hands the creation over to a service. A
creation opens connections, settles its slot, and tells its outcome. All others only take slots
out, or shut the registry down.

Nothing that a creation does, nor what it starts, touches a slot of another generation
(`spares_create`).
-/

namespace LspClient

open Program

namespace Registry

open World (Inside)

/-- What a caller asks for. -/
structure Ask where
  name : String
  config : ServerConfig
  cwd : Path
  warmup : Option Nat
  token : Token

def Ask.key (x : Ask) : ConnectionKey := ConnectionKey.make x.config x.cwd

abbrev Outcome := Except Failure Nat

variable {ε α : Type} {w w' : World ε} {connect : Connector ε} {x : Ask} {g : Nat}

/-- The key has no slot, or one whose connection is not alive. -/
def Vacant (key : ConnectionKey) (w : World ε) : Prop :=
  ∀ s, w.registry.slot? key = some s →
    ∃ g name i, s = .ready g name i ∧ (w.connection i).isAlive = false

/-- A vacant key is claimed for a new generation. -/
structure Claims (key : ConnectionKey) (g : Nat) (w w' : World ε) : Prop where
  vacant : Vacant key w
  number : w.registry.nextGeneration = g
  next : w'.registry.nextGeneration = g + 1
  slot : ∃ name fileTypes, ∀ key', w'.registry.slot? key' =
    if key.Same key' then some (.starting g name fileTypes) else w.registry.slot? key'
  outcomes : w'.registry.outcomes = w.registry.outcomes
  isShutDown : w'.registry.isShutDown = w.registry.isShutDown

/-- Why a caller stops waiting. -/
inductive GivesUp (x : Ask) (w : World ε) : Failure → Prop
  | cancelled (h : w.isCancelled x.token = true) : GivesUp x w .cancelled
  | late {t : Nat} (h : x.warmup = some t) : GivesUp x w (.timeout Method.handshake (t * 1000))

/-! ### Stages -/

/-- Where one stands with a creation. -/
inductive Role where
  | none
  | refused
  | found (i : Nat)
  | claimed (g : Nat)
  | waits (g : Nat)
  | heard (g : Nat) (r : Outcome)
  | left (g : Nat) (e : Failure)
  | creates (g : Nat)
  | ends (g : Nat) (r : Outcome)
  | told (g : Nat)

namespace Role

/-- The generation of one who is to see to its creation, sees to it, or has seen to it. -/
def owned? : Role → Option Nat
  | .claimed g => some g
  | .creates g => some g
  | .ends g _ => some g
  | .told g => some g
  | _ => Option.none

/-- The generation of a creation that goes on, or is over. -/
def created? : Role → Option Nat
  | .creates g => some g
  | .ends g _ => some g
  | .told g => some g
  | _ => Option.none

/-- The generation of a creation that has kept no connection so far. -/
def unkept? : Role → Option Nat
  | .claimed g => some g
  | .creates g => some g
  | .ends g (.error _) => some g
  | _ => Option.none

end Role

/-- A caller, or a creation, under what was asked for, and the connections it has opened. -/
structure Stage where
  ask : Option Ask
  role : Role
  opened : List Nat

/-- A creation for what was asked for. -/
def creation (connect : Connector ε) (x : Ask) (g : Nat) : Work ε Bool :=
  Program.once (create connect x.key g x.name x.config)

inductive Acts (w w' : World ε) : Stage → Stage → Prop
  | trim {st : Stage} (h : Trims w.registry w'.registry)
      (hlen : w'.connections.length = w.connections.length) : Acts w w' st st
  | opens {x : Ask} {g : Nat} {opened opened' : List Nat} (hr : w'.registry = w.registry)
      (h : w.Opens w' opened opened') :
      Acts w w' ⟨some x, .creates g, opened⟩ ⟨some x, .creates g, opened'⟩
  | refuse {x : Ask} (h : w.registry.isShutDown = true) (hw : Inside w w') :
      Acts w w' ⟨some x, .none, []⟩ ⟨some x, .refused, []⟩
  | find {x : Ask} {g i : Nat} {name : String}
      (hslot : w.registry.slot? x.key = some (.ready g name i))
      (halive : (w.connection i).isAlive = true) (hw : Inside w w') :
      Acts w w' ⟨some x, .none, []⟩ ⟨some x, .found i, []⟩
  | join {x : Ask} {g : Nat} {name : String} {fileTypes : List String}
      (hslot : w.registry.slot? x.key = some (.starting g name fileTypes)) (hw : Inside w w') :
      Acts w w' ⟨some x, .none, []⟩ ⟨some x, .waits g, []⟩
  | claim {x : Ask} {g : Nat} (h : Claims x.key g w w')
      (hd : Distinct w.registry → Distinct w'.registry)
      (hlen : w'.connections.length = w.connections.length) :
      Acts w w' ⟨some x, .none, []⟩ ⟨some x, .claimed g, []⟩
  | hear {x : Ask} {g : Nat} {r : Outcome} (h : w.registry.outcomes.get? g = some r)
      (hw : Inside w w') : Acts w w' ⟨some x, .waits g, []⟩ ⟨some x, .heard g r, []⟩
  | leave {x : Ask} {g : Nat} {e : Failure} (h : GivesUp x w e) (hw : Inside w w') :
      Acts w w' ⟨some x, .waits g, []⟩ ⟨some x, .left g e, []⟩
  | keep {x : Ask} {g i : Nat} {opened : List Nat} (hi : i ∈ opened)
      (hcurrent : w.registry.isCurrent x.key g = true)
      (hdown : w.registry.isShutDown = false)
      (hr : w'.registry = w.registry.fill x.key (.ready g x.name i))
      (hlen : w'.connections.length = w.connections.length) :
      Acts w w' ⟨some x, .creates g, opened⟩ ⟨some x, .ends g (.ok i), opened⟩
  | fail {x : Ask} {g : Nat} {e : Failure} {opened : List Nat}
      (h : Trims w.registry w'.registry)
      (hgone : w'.registry.isCurrent x.key g = false ∨ w'.registry.isShutDown = true)
      (hlen : w'.connections.length = w.connections.length) :
      Acts w w' ⟨some x, .creates g, opened⟩ ⟨some x, .ends g (.error e), opened⟩
  | tell {x : Ask} {g : Nat} {r : Outcome} {opened : List Nat}
      (hr : w'.registry = w.registry.announce g r)
      (hlen : w'.connections.length = w.connections.length) :
      Acts w w' ⟨some x, .ends g r, opened⟩ ⟨some x, .told g, opened⟩

theorem Acts.distinct {st st' : Stage} (hacts : Acts w w' st st') (h : Distinct w.registry) :
    Distinct w'.registry := by
  cases hacts with
  | trim ht => exact ht.distinct h
  | opens hr => rwa [hr]
  | refuse _ hw => rwa [hw.1]
  | find _ _ hw => rwa [hw.1]
  | join _ hw => rwa [hw.1]
  | claim _ hd => exact hd h
  | hear _ hw => rwa [hw.1]
  | leave _ hw => rwa [hw.1]
  | keep _ _ _ hr =>
    rw [hr]
    exact h.fill _ _
  | fail ht => exact ht.distinct h
  | tell hr => rwa [hr]

/-- A service that is to see to a creation does not end before it has come to an outcome. -/
def discipline (connect : Connector ε) : Discipline (World ε) Stage where
  Inv w := Distinct w.registry
  Acts st w w' st' := Acts w w' st st'
  idle := ⟨none, .none, []⟩
  Hands st body i st' := ∃ x g, st = ⟨some x, .claimed g, []⟩ ∧ body = creation connect x g ∧
    i = ⟨some x, .creates g, []⟩ ∧ st' = ⟨some x, .waits g, []⟩
  Ends st := ∀ g, st.role ≠ .creates g
  ends_idle := nofun
  inv_of_acts h hacts := hacts.distinct h
  acts_self _ := .trim (.refl _) rfl

/-! ### Those who only take slots out -/

theorem neutral_of_trims (h : Distinct w.registry → Trims w.registry w'.registry)
    (hlen : w'.connections.length = w.connections.length) :
    (discipline connect).Neutral w w' := fun hinv _ => .trim (h hinv) hlen

theorem neutral_inside (h : Inside w w') : (discipline connect).Neutral w w' :=
  neutral_of_trims (fun _ => h.1 ▸ .refl _) h.2

theorem neutral_of_keeps {p : Work ε α} (h : Keeps Inside p) :
    Keeps (discipline connect).Neutral p :=
  h.mono fun _ _ => neutral_inside

theorem keeps_look {view : World ε → α} : Keeps (discipline connect).Neutral (look view) :=
  Keeps.look fun w => (discipline connect).neutral_self w

/-- The step takes slots out, or shuts the registry down, and does nothing else. -/
def Trimming (w w' : World ε) : Prop :=
  (Distinct w.registry → Trims w.registry w'.registry) ∧ w'.connections = w.connections

/-- What is so of such steps, and of those that a connection ends with, is so of all steps of those
who take connections down. -/
structure TakesDown (G : World ε → World ε → Prop) : Prop where
  trims : ∀ w w', Trimming w w' → G w w'
  untilClosed : ∀ i, Keeps G (Connection.untilClosed i)
  shutdown : ∀ i, Keeps G (Connection.shutdown i)

namespace TakesDown

variable {G : World ε → World ε → Prop} (h : TakesDown G)

include h

theorem self (w : World ε) : G w w := h.trims w w ⟨fun _ => .refl _, rfl⟩

/-- A step on the registry that takes slots out. -/
theorem takesOut {f : Registry → α × Registry} (hf : ∀ r, Distinct r → Trims r (f r).2) :
    Keeps G (locked (step f) : Work ε α) :=
  Keeps.locked fun w => h.trims _ _ ⟨hf w.registry, rfl⟩

theorem watch (key : ConnectionKey) (g i : Nat) : Keeps G (Registry.watch key g i) := by
  refine Keeps.bind (h.untilClosed i) fun _ => ?_
  refine Keeps.bind (h.takesOut fun r hd => trims_takeEnded hd key g) fun taken => ?_
  match taken with
  | some i => exact h.shutdown i
  | none => exact Keeps.pure _

theorem shutdownAllOf (connections : List Nat) :
    Keeps G (Registry.shutdownAllOf connections) := by
  refine Keeps.bind (Keeps.all _ fun p hp => ?_) fun _ => Keeps.pure _
  obtain ⟨i, -, rfl⟩ := List.mem_map.1 hp
  exact h.shutdown i

theorem reapIdle (limit : Nat) : Keeps G (Registry.reapIdle limit) :=
  Keeps.bind (Keeps.locked fun _ => h.trims _ _ ⟨fun hd => trims_takeOut hd _, rfl⟩)
    h.shutdownAllOf

theorem shutdownNamed (name : String) : Keeps G (Registry.shutdownNamed name) :=
  Keeps.bind (h.takesOut fun _ hd => trims_takeOut hd _) h.shutdownAllOf

theorem shutdownAll : Keeps G (Registry.shutdownAll : Work ε Nat) := by
  refine Keeps.bind (Keeps.update fun w => h.trims _ _ ⟨fun _ => ?_, rfl⟩) fun _ => ?_
  · exact trims_of_slots_eq rfl rfl rfl fun _ => rfl
  · exact Keeps.bind (h.takesOut fun _ hd => trims_takeOut hd _) h.shutdownAllOf

theorem planReap (interval due : Nat) (w : World ε) : G w (Registry.planReap interval due w) :=
  h.trims _ _ ⟨fun _ => trims_of_slots_eq rfl rfl rfl fun hdown => hdown, rfl⟩

theorem reaper (idle interval : Nat) : Keeps G (Registry.reaper idle interval) := by
  refine Keeps.bind (Keeps.look h.self) fun due => ?_
  refine Keeps.bind (Keeps.await fun w a w' hs => ?_) fun ended => ?_
  · split at hs
    · cases hs
      exact h.self w
    · obtain ⟨-, heq⟩ := Option.ite_none_right_eq_some.1 hs
      cases heq
      exact h.self w
  · split
    · exact Keeps.pure _
    · refine Keeps.bind (Keeps.update (h.planReap interval due)) fun _ => ?_
      exact Keeps.bind (h.reapIdle idle) fun _ => Keeps.pure _

theorem startReaper (idle interval : Nat) : Keeps G (Registry.startReaper idle interval) :=
  Keeps.bind (Keeps.update fun w => h.planReap interval w.clock w) fun _ =>
    Keeps.start (h.reaper idle interval)

end TakesDown

theorem takesDown_neutral : TakesDown (discipline connect).Neutral where
  trims _ _ h := neutral_of_trims h.1 (by rw [h.2])
  untilClosed _ := neutral_of_keeps Connection.parts_inside.untilClosed
  shutdown _ := neutral_of_keeps Connection.parts_inside.shutdown

/-! ### Creations -/

/-- One who opens connections may do so as a creation. -/
theorem follows_of_opening {p : Work ε α} {opened : List Nat}
    {Q : Option (List Nat) → α → Prop} (hp : Follows (opening ε) p (some opened) Q) :
    Follows (discipline connect) p ⟨some x, .creates g, opened⟩ fun st a =>
      ∃ is, st = ⟨some x, .creates g, is⟩ ∧ Q (some is) a := by
  have hneutral (w w' : World ε) (h : (opening ε).Neutral w w') :
      (discipline connect).Neutral w w' := neutral_inside (inside_of_neutral h)
  induction p generalizing opened with
  | done a => exact ⟨opened, rfl, hp⟩
  | await deadline step next ih =>
    intro w b w' _ hs
    obtain ⟨g', ⟨hr, hopens⟩, hnext⟩ := hp w b w' trivial hs
    cases g' with
    | none => exact hopens.elim
    | some opened' => exact ⟨_, .opens hr hopens, ih b hnext⟩
  | spawn service next _ ih =>
    rcases hp with ⟨hservice, hnext⟩ | ⟨i, g', hhands, -, -⟩
    · exact .inl ⟨(neutral_of_keeps (inside_of_opening hservice)).atRest, ih hnext⟩
    · exact hhands.elim
  | both p q next _ _ ih =>
    exact ⟨hp.1.mono hneutral, hp.2.1.mono hneutral, fun b c => ih b c (hp.2.2 b c)⟩

theorem follows_connect (hconnect : Lawful connect) :
    Follows (discipline connect) (connect x.name x.config x.key.cwd) ⟨some x, .creates g, []⟩
      fun st created => ∃ opened, st = ⟨some x, .creates g, opened⟩ ∧
        ∀ i, created = .ok i → i ∈ opened := by
  refine (follows_of_opening (hconnect x.name x.config x.key.cwd)).mono fun st created h => ?_
  obtain ⟨opened, rfl, hopened⟩ := h
  refine ⟨opened, rfl, fun i hi => ?_⟩
  obtain ⟨is, heq, hmem⟩ := hopened i hi
  cases heq
  exact hmem

/-- What is left to do of a creation that has come to its connection, or failed. -/
def finish (key : ConnectionKey) (g : Nat) (name : String) (created : Outcome) :
    Work ε Unit := do
  let kept ← Program.locked (step fun r => r.settle key g name created)
  match created with
  | .error e => tellWaiting g (.error e)
  | .ok i =>
    if kept then
      Program.fork (watch key g i)
      tellWaiting g (.ok i)
    else
      Connection.shutdown i
      tellWaiting g (.error (.connectionClosed name none))

theorem create_eq (connect : Connector ε) (key : ConnectionKey) (g : Nat) (name : String)
    (config : ServerConfig) : create connect key g name config =
      connect name config key.cwd >>= finish key g name := rfl

/-- A creation settles its slot for the connection that it has opened, or fails. -/
theorem follows_settle {created : Outcome} {opened : List Nat}
    (hcreated : ∀ i, created = .ok i → i ∈ opened) :
    Follows (discipline connect) (locked (step fun r => r.settle x.key g x.name created))
      ⟨some x, .creates g, opened⟩ fun st kept => match created with
        | .error e => st = ⟨some x, .ends g (.error e), opened⟩
        | .ok i => if kept then st = ⟨some x, .ends g (.ok i), opened⟩
          else st = ⟨some x, .ends g (.error (.connectionClosed x.name none)), opened⟩ := by
  refine Follows.locked fun w hd => ?_
  match created with
  | .error e =>
    refine ⟨_, .fail (trims_settle_error hd x.key g x.name e)
      (.inl (isCurrent_settle_error w.registry x.key g x.name e)) rfl, rfl⟩
  | .ok i =>
    rw [step]
    rcases settle_ok_cases w.registry x.key g x.name i with ⟨hcurrent, hup, heq⟩ | ⟨hgone, heq⟩
    · rw [heq]
      exact ⟨⟨some x, .ends g (.ok i), opened⟩, .keep (hcreated i rfl) hcurrent hup rfl rfl, rfl⟩
    · rw [heq]
      exact ⟨⟨some x, .ends g (.error (.connectionClosed x.name none)), opened⟩,
        .fail (.refl _) hgone rfl, rfl⟩

theorem follows_tellWaiting {r : Outcome} {opened : List Nat} :
    Follows (discipline connect) (tellWaiting g r) ⟨some x, .ends g r, opened⟩
      fun st _ => st = ⟨some x, .told g, opened⟩ :=
  Follows.act fun _ _ => ⟨_, .tell rfl rfl, rfl⟩

theorem follows_finish {created : Outcome} {opened : List Nat}
    (hcreated : ∀ i, created = .ok i → i ∈ opened) :
    Follows (discipline connect) (finish x.key g x.name created) ⟨some x, .creates g, opened⟩
      fun st _ => st = ⟨some x, .told g, opened⟩ := by
  refine (follows_settle hcreated).bind fun st kept hst => ?_
  match created with
  | .error e =>
    subst hst
    exact follows_tellWaiting
  | .ok i =>
    dsimp only at hst
    split at hst
    · next hkept =>
      subst hst hkept
      have hwatch : Follows (discipline connect) (watch x.key g i) (discipline connect).idle
          fun st _ => (discipline connect).Ends st :=
        (takesDown_neutral.watch x.key g i).follows.mono fun st _ hst => by
          subst hst
          exact (discipline connect).ends_idle
      refine hwatch.fork.bind fun st _ hst => ?_
      subst hst
      exact follows_tellWaiting
    · next hkept =>
      subst hst
      obtain rfl : kept = false := by simpa using hkept
      refine (takesDown_neutral.shutdown i).follows.bind fun st _ hst => ?_
      subst hst
      exact follows_tellWaiting

theorem follows_create (hconnect : Lawful connect) :
    Follows (discipline connect) (create connect x.key g x.name x.config)
      ⟨some x, .creates g, []⟩ fun st _ => (discipline connect).Ends st := by
  rw [create_eq]
  refine (follows_connect hconnect).bind fun st created hst => ?_
  obtain ⟨opened, rfl, hopened⟩ := hst
  refine (follows_finish hopened).mono fun st _ hst => ?_
  subst hst
  exact nofun

/-! ### Callers -/

/-- What is found under a key. -/
theorem claim_cases (r : Registry) (key : ConnectionKey) (isAlive : Nat → Bool) (name : String)
    (fileTypes : List String) :
    (∃ g name' i, r.slot? key = some (.ready g name' i) ∧ isAlive i = true ∧
      r.claim key isAlive name fileTypes = (.alive i, r)) ∨
    (∃ g name' fileTypes', r.slot? key = some (.starting g name' fileTypes') ∧
      r.claim key isAlive name fileTypes = (.starting g, r)) ∨
    ((∀ s, r.slot? key = some s → ∃ g name i, s = .ready g name i ∧ isAlive i = false) ∧
      r.claim key isAlive name fileTypes = (.vacant r.nextGeneration,
        { r.fill key (.starting r.nextGeneration name fileTypes) with
          nextGeneration := r.nextGeneration + 1 })) := by
  unfold claim
  cases hslot : r.slot? key with
  | none => exact .inr (.inr ⟨nofun, rfl⟩)
  | some s =>
    cases s with
    | starting g name' fileTypes' => exact .inr (.inl ⟨g, name', fileTypes', rfl, rfl⟩)
    | ready g name' i =>
      cases halive : isAlive i with
      | true => exact .inl ⟨g, name', i, rfl, halive, by simp [halive]⟩
      | false =>
        refine .inr (.inr ⟨fun s hs => ?_, by simp [halive]⟩)
        cases hs
        exact ⟨g, name', i, rfl, halive⟩

/-- What a caller finds, and what it makes of the world. -/
theorem claimNow_cases (x : Ask) (w : World ε) :
    (∃ g name i, w.registry.slot? x.key = some (.ready g name i) ∧
      (w.connection i).isAlive = true ∧ claimNow x.key x.name x.config w =
        (.alive i, w.onConnection i (Connection.touch w.uptime))) ∨
    (∃ g name fileTypes, w.registry.slot? x.key = some (.starting g name fileTypes) ∧
      claimNow x.key x.name x.config w = (.starting g, w)) ∨
    ∃ registry, claimNow x.key x.name x.config w =
        (.vacant w.registry.nextGeneration, { w with registry }) ∧
      Claims x.key w.registry.nextGeneration w { w with registry } ∧
      (Distinct w.registry → Distinct registry) := by
  unfold claimNow
  rcases claim_cases w.registry x.key (fun i => (w.connection i).isAlive) x.name
      x.config.fileExtensions with
    ⟨g, name, i, hslot, halive, heq⟩ | ⟨g, name, fileTypes, hslot, heq⟩ | ⟨hvacant, heq⟩
  · rw [heq]
    exact .inl ⟨g, name, i, hslot, halive, rfl⟩
  · rw [heq]
    exact .inr (.inl ⟨g, name, fileTypes, hslot, rfl⟩)
  · rw [heq]
    refine .inr (.inr ⟨_, rfl, ⟨hvacant, rfl, rfl,
      ⟨x.name, x.config.fileExtensions, fun key' => ?_⟩, ?_, ?_⟩, fun h => h.fill _ _⟩)
    · exact slot?_fill w.registry x.key key' _
    · simp only [fill]
      split <;> rfl
    · simp only [fill]
      split <;> rfl

theorem follows_claimNow : Follows (discipline connect)
    (locked (claimNow x.key x.name x.config)) ⟨some x, .none, []⟩ fun st found =>
      match found with
      | .alive i => st = ⟨some x, .found i, []⟩
      | .starting g => st = ⟨some x, .waits g, []⟩
      | .vacant g => st = ⟨some x, .claimed g, []⟩ := by
  refine Follows.locked fun w _ => ?_
  rcases claimNow_cases x w with ⟨g, name, i, hslot, halive, heq⟩ |
    ⟨g, name, fileTypes, hslot, heq⟩ | ⟨registry, heq, hclaims, hdistinct⟩
  · rw [heq]
    exact ⟨_, .find hslot halive ⟨rfl, List.length_set⟩, rfl⟩
  · rw [heq]
    exact ⟨_, .join hslot ⟨rfl, rfl⟩, rfl⟩
  · rw [heq]
    exact ⟨_, .claim hclaims hdistinct rfl, rfl⟩

/-- What one in this role answers. -/
def Role.Answers (x : Ask) (r : Outcome) : Role → Prop
  | .refused => r = .error (.connectionClosed x.name Option.none)
  | .found i => r = .ok i
  | .heard _ r' => r = r'
  | .left _ e => r = .error e
  | _ => False

/-- How a call ends. -/
def Ended (x : Ask) (st : Stage) (r : Outcome) : Prop := st.ask = some x ∧ st.role.Answers x r

/-- Where one stands who has waited. -/
def afterWait (x : Ask) (g : Nat) : Except Failure Outcome → Stage
  | .ok r => ⟨some x, .heard g r, []⟩
  | .error e => ⟨some x, .left g e, []⟩

theorem follows_outcomeOf {limit : Limit} (htoken : limit.token = x.token)
    (hexpiry : ∀ t e, limit.expiry = some (t, e) →
      ∃ t, x.warmup = some t ∧ e = .timeout Method.handshake (t * 1000)) :
    Follows (discipline connect) (outcomeOf g limit) ⟨some x, .waits g, []⟩ (Ended x) := by
  have hwait : Follows (discipline connect) (Work.within limit fun w =>
      (w.registry.outcomes.get? g).map fun outcome => (outcome, w)) ⟨some x, .waits g, []⟩
      fun st r => st = afterWait x g r := by
    refine Follows.await fun w r w' _ hs => ?_
    split at hs
    · next hcancelled =>
      cases hs
      exact ⟨_, .leave (.cancelled (htoken ▸ hcancelled)) ⟨rfl, rfl⟩, rfl⟩
    · split at hs
      · next r' w'' hr =>
        cases hs
        obtain ⟨r'', hr'', heq⟩ := Option.map_eq_some_iff.1 hr
        cases heq
        exact ⟨_, .hear hr'' ⟨rfl, rfl⟩, rfl⟩
      · obtain ⟨e, he, heq⟩ := Option.map_eq_some_iff.1 hs
        cases heq
        obtain ⟨⟨t, e'⟩, hlimit, hle⟩ := Option.bind_eq_some_iff.1 he
        obtain ⟨-, heq⟩ := Option.ite_none_right_eq_some.1 hle
        cases heq
        obtain ⟨t, hwarmup, rfl⟩ := hexpiry _ _ hlimit
        exact ⟨_, .leave (.late hwarmup) ⟨rfl, rfl⟩, rfl⟩
  refine hwait.bind fun st r hst => ?_
  subst hst
  cases r with
  | ok r => exact ⟨rfl, rfl⟩
  | error e => exact ⟨rfl, rfl⟩

theorem follows_getOrCreate (hconnect : Lawful connect) (x : Ask) :
    Follows (discipline connect)
      (getOrCreate connect x.name x.config x.cwd x.warmup x.token) ⟨some x, .none, []⟩
      (Ended x) := by
  have hlook : Follows (discipline connect) (look fun w : World ε => w.registry.isShutDown)
      ⟨some x, .none, []⟩ fun st down =>
        st = ⟨some x, if down then .refused else .none, []⟩ := by
    refine Follows.act fun w _ => ?_
    cases hdown : w.registry.isShutDown with
    | true => exact ⟨_, .refuse hdown ⟨rfl, rfl⟩, by simp [hdown]⟩
    | false => exact ⟨_, .trim (.refl _) rfl, by simp [hdown]⟩
  refine hlook.bind fun st down hst => ?_
  subst hst
  cases down with
  | true => exact ⟨rfl, rfl⟩
  | false =>
    refine keeps_look.follows.bind fun st started hst => ?_
    subst hst
    have hexpiry (t : Nat) (e : Failure) (h : (x.warmup.map fun t =>
        (started + t, Failure.timeout Method.handshake (t * 1000))) = some (t, e)) :
        ∃ t, x.warmup = some t ∧ e = .timeout Method.handshake (t * 1000) := by
      obtain ⟨t', ht', heq⟩ := Option.map_eq_some_iff.1 h
      cases heq
      exact ⟨t', ht', rfl⟩
    refine follows_claimNow.bind fun st found hst => ?_
    -- a living connection is returned, one that is starting is waited for, else one is created
    match found with
    | .alive i =>
      subst hst
      exact ⟨rfl, rfl⟩
    | .starting g =>
      subst hst
      exact follows_outcomeOf rfl hexpiry
    | .vacant g =>
      subst hst
      have hcreate := follows_create (x := x) (g := g) hconnect
      have hhands : (discipline connect).Hands ⟨some x, .claimed g, []⟩ (creation connect x g)
          ⟨some x, .creates g, []⟩ ⟨some x, .waits g, []⟩ := ⟨x, g, rfl, rfl, rfl, rfl⟩
      refine (Follows.hand hhands hcreate).bind fun st _ hst => ?_
      subst hst
      exact follows_outcomeOf rfl hexpiry

/-! ### Slots of other generations -/

/-- The step leaves the slots of other generations as they are. -/
def Spares (g : Nat) (w w' : World ε) : Prop := SparesOthers g w.registry w'.registry

theorem spares_of_registry_eq (h : w'.registry = w.registry) : Spares g w w' :=
  sparesOthers_of_slots_eq (by rw [h])

theorem spares_of_inside {p : Work ε α} (h : Keeps Inside p) : Keeps (Spares g) p :=
  h.mono fun _ _ hw => spares_of_registry_eq hw.1

theorem spares_tellWaiting (r : Outcome) : Keeps (Spares g) (tellWaiting g r : Work ε Unit) :=
  Keeps.update fun _ => sparesOthers_of_slots_eq rfl

theorem spares_watch (key : ConnectionKey) (i : Nat) :
    Keeps (Spares g) (watch key g i : Work ε Unit) := by
  refine Keeps.bind (spares_of_inside Connection.parts_inside.untilClosed) fun _ => ?_
  refine Keeps.bind (Keeps.locked fun w => sparesOthers_takeEnded w.registry key g) fun taken => ?_
  match taken with
  | some i => exact spares_of_inside Connection.parts_inside.shutdown
  | none => exact Keeps.pure _

theorem spares_finish (key : ConnectionKey) (name : String) (created : Outcome) :
    Keeps (Spares g) (finish key g name created : Work ε Unit) := by
  refine Keeps.bind (Keeps.locked fun w => sparesOthers_settle w.registry key g name created)
    fun kept => ?_
  match created with
  | .error e => exact spares_tellWaiting _
  | .ok i =>
    dsimp only
    split
    · exact Keeps.bind (Keeps.fork (spares_watch key i)) fun _ => spares_tellWaiting _
    · exact Keeps.bind (spares_of_inside Connection.parts_inside.shutdown) fun _ =>
        spares_tellWaiting _

/-- A creation, and the watch that it starts, leave the slots of other generations alone. -/
theorem spares_create (hconnect : Lawful connect) (key : ConnectionKey) (name : String)
    (config : ServerConfig) : Keeps (Spares g) (create connect key g name config) := by
  rw [create_eq]
  exact Keeps.bind ((hconnect.keeps_registry name config key.cwd).mono fun _ _ =>
    spares_of_registry_eq) (spares_finish key name)

end Registry

end LspClient
