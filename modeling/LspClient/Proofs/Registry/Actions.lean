import LspClient.Proofs.Program.Leaving
import LspClient.Proofs.Program.Staged
import LspClient.Proofs.Registry.Stages

/-!
# What callers and creations do

The rules of a crew that shares a registry, and what can be said of an action from the two states
and stages alone: who takes a generation, tells an outcome, opens a connection, or has one in a
slot.

A caller looks whether the registry is shut down, reads the clock, looks its key up, starts the
creation that it has claimed, and waits. `Caller` lists where it may stand, and `CallerStep` all
that it does from there. To look whether the registry is shut down and to look the key up are two
steps, so that others may shut it down in between; whoever is `Clear` of that gap is not taken by
surprise.
-/

namespace LspClient.Registry

open Program Crew
open World (Inside)

variable {ε : Type} {connect : Connector ε} {w w' : World ε} {st st' : Stage} {g : Nat}
  {key : ConnectionKey}

/-! ### Crews -/

/-- Who takes connections down. -/
inductive Serves : Work ε Bool → Prop
  | reapIdle (limit : Nat) : Serves (do
      let _ ← Registry.reapIdle limit
      return false)
  | shutdownNamed (name : String) : Serves (do
      let _ ← Registry.shutdownNamed name
      return false)
  | shutdownAll : Serves (do
      let _ ← Registry.shutdownAll
      return false)
  | startReaper (idle interval : Nat) : Serves (once (Registry.startReaper idle interval))

/-- Any number of callers, and of those who take connections down; meanwhile connections do as
they please. -/
def rules (connect : Connector ε) : Rules (World ε) Ask Outcome where
  program x := getOrCreate connect x.name x.config x.cwd x.warmup x.token
  Serves := Serves
  Outside := Inside

theorem TakesDown.serves {G : World ε → World ε → Prop} {p : Work ε Bool} (h : TakesDown G)
    (hp : Serves p) : Keeps G p := by
  cases hp with
  | reapIdle limit => exact Keeps.bind (h.reapIdle limit) fun _ => Keeps.pure _
  | shutdownNamed name => exact Keeps.bind (h.shutdownNamed name) fun _ => Keeps.pure _
  | shutdownAll => exact Keeps.bind h.shutdownAll fun _ => Keeps.pure _
  | startReaper idle interval => exact (h.startReaper idle interval).once

def begins (x : Ask) : Stage := ⟨some x, .none, []⟩

theorem obeys_rules (hconnect : Lawful connect) :
    (rules connect).Obeys (discipline connect) begins Ended where
  program := follows_getOrCreate hconnect
  serves _ hp := (takesDown_neutral.serves hp).atRest
  outside _ _ hinv h := neutral_inside h hinv _

/-! ### What an action does -/

theorem Acts.ask (h : Acts w w' st st') : st'.ask = st.ask := by cases h <;> rfl

theorem Acts.created? (h : Acts w w' st st') : st'.role.created? = st.role.created? := by
  cases h <;> rfl

/-- A caller claims its key for a generation. -/
structure ClaimsAs (w w' : World ε) (st st' : Stage) (x : Ask) (g : Nat) : Prop where
  before : st = ⟨some x, .none, []⟩
  after : st' = ⟨some x, .claimed g, []⟩
  claims : Claims x.key g w w'

theorem Acts.owned? (h : Acts w w' st st') :
    st'.role.owned? = st.role.owned? ∨ ∃ x g, ClaimsAs w w' st st' x g := by
  cases h with
  | claim h => exact .inr ⟨_, _, rfl, rfl, h⟩
  | _ => exact .inl rfl

theorem Acts.nextGeneration (h : Acts w w' st st') :
    w'.registry.nextGeneration = w.registry.nextGeneration ∨
      ∃ x g, ClaimsAs w w' st st' x g := by
  cases h with
  | trim ht => exact .inl ht.nextGeneration
  | opens hr => exact .inl (by rw [hr])
  | claim h => exact .inr ⟨_, _, rfl, rfl, h⟩
  | keep _ _ _ hr =>
    rw [hr, fill]
    split <;> exact .inl rfl
  | fail ht => exact .inl ht.nextGeneration
  | tell hr => exact .inl (by rw [hr]; rfl)
  | _ => next hw => exact .inl (by rw [hw.1])

theorem Acts.nextGeneration_le (h : Acts w w' st st') :
    w.registry.nextGeneration ≤ w'.registry.nextGeneration := by
  rcases h.nextGeneration with heq | ⟨x, g, hclaims⟩
  · exact Nat.le_of_eq heq.symm
  · rw [hclaims.claims.next, hclaims.claims.number]
    exact Nat.le_succ g

theorem Acts.isShutDown (h : Acts w w' st st') (hdown : w.registry.isShutDown = true) :
    w'.registry.isShutDown = true := by
  cases h with
  | trim ht => exact ht.isShutDown hdown
  | opens hr => rwa [hr]
  | claim h => rwa [h.isShutDown]
  | keep _ _ hup => exact absurd (hdown.symm.trans hup) nofun
  | fail ht => exact ht.isShutDown hdown
  | tell hr => rwa [hr]
  | _ => next hw => rwa [hw.1]

/-- Outcomes do not change but for the one that a creation tells. -/
theorem Acts.outcomes (h : Acts w w' st st') :
    w'.registry.outcomes = w.registry.outcomes ∨ ∃ x g r opened,
      st = ⟨some x, .ends g r, opened⟩ ∧ st' = ⟨some x, .told g, opened⟩ ∧
        w'.registry.outcomes = w.registry.outcomes.put g r := by
  cases h with
  | trim ht => exact .inl ht.outcomes
  | opens hr => exact .inl (by rw [hr])
  | claim h => exact .inl h.outcomes
  | keep _ _ _ hr =>
    rw [hr, fill]
    split <;> exact .inl rfl
  | fail ht => exact .inl ht.outcomes
  | tell hr => exact .inr ⟨_, _, _, _, rfl, rfl, by rw [hr]; rfl⟩
  | _ => next hw => exact .inl (by rw [hw.1])

/-- A creation keeps the connection that it has opened. -/
structure KeepsAs (w w' : World ε) (st st' : Stage) (x : Ask) (g i : Nat) : Prop where
  before : ∃ opened, st = ⟨some x, .creates g, opened⟩ ∧ i ∈ opened
  after : ∃ opened, st' = ⟨some x, .ends g (.ok i), opened⟩
  current : w.registry.isCurrent x.key g = true
  up : w.registry.isShutDown = false
  stored : w'.registry.slot? x.key = some (.ready g x.name i)

theorem keepsAs_of_keep {x : Ask} {i : Nat} {opened : List Nat} (hi : i ∈ opened)
    (hcurrent : w.registry.isCurrent x.key g = true) (hup : w.registry.isShutDown = false)
    (hr : w'.registry = w.registry.fill x.key (.ready g x.name i)) :
    KeepsAs w w' ⟨some x, .creates g, opened⟩ ⟨some x, .ends g (.ok i), opened⟩ x g i := by
  refine ⟨⟨opened, rfl, hi⟩, ⟨opened, rfl⟩, hcurrent, hup, ?_⟩
  rw [hr, slot?_fill, if_pos (.refl _)]

/-- One who is about to tell that a connection was kept has just kept it, or was about to before. -/
theorem Acts.ends_ok {i : Nat} (h : Acts w w' st st') (hrole : st'.role = .ends g (.ok i)) :
    st.role = .ends g (.ok i) ∨ ∃ x, KeepsAs w w' st st' x g i := by
  cases h with
  | trim => exact .inl hrole
  | keep hi hcurrent hup hr =>
    cases hrole
    exact .inr ⟨_, keepsAs_of_keep hi hcurrent hup hr⟩
  | _ => cases hrole

/-- One who is about to tell that a creation failed was so before, or there is no slot for it
now. -/
theorem Acts.ends_error {e : Failure} (h : Acts w w' st st')
    (hrole : st'.role = .ends g (.error e)) :
    st.role = .ends g (.error e) ∨ ∃ x opened, st = ⟨some x, .creates g, opened⟩ ∧
      (w'.registry.isCurrent x.key g = false ∨ w'.registry.isShutDown = true) := by
  cases h with
  | trim => exact .inl hrole
  | fail _ hgone =>
    cases hrole
    exact .inr ⟨_, _, rfl, hgone⟩
  | _ => cases hrole

theorem Acts.unkept? (h : Acts w w' st st') (hg : st'.role.unkept? = some g) :
    st.role.unkept? = some g ∨ ∃ x, ClaimsAs w w' st st' x g := by
  cases h with
  | claim hclaims =>
    cases hg
    exact .inr ⟨_, rfl, rfl, hclaims⟩
  | fail => exact .inl hg
  | trim => exact .inl hg
  | opens => exact .inl hg
  | _ => cases hg

/-- One who is to see to a creation still is, or has kept its connection, or the creation has
failed. -/
theorem Acts.sees_to (h : Acts w w' st st') (hrole : st.role = .claimed g ∨ st.role = .creates g) :
    (st'.role = .claimed g ∨ st'.role = .creates g) ∨ (∃ x i, KeepsAs w w' st st' x g i) ∨
      ∃ x opened, st = ⟨some x, .creates g, opened⟩ ∧
        (w'.registry.isCurrent x.key g = false ∨ w'.registry.isShutDown = true) := by
  cases h with
  | trim => exact .inl hrole
  | opens => exact .inl hrole
  | keep hi hcurrent hup hr =>
    rcases hrole with hrole | hrole
    · cases hrole
    · cases hrole
      exact .inr (.inl ⟨_, _, keepsAs_of_keep hi hcurrent hup hr⟩)
  | fail _ hgone =>
    rcases hrole with hrole | hrole
    · cases hrole
    · cases hrole
      exact .inr (.inr ⟨_, _, rfl, hgone⟩)
  | _ => rcases hrole with hrole | hrole <;> cases hrole

/-- One who has told an outcome does nothing more. -/
theorem Acts.of_told (h : Acts w w' st st') (hrole : st.role = .told g) : st' = st := by
  cases h with
  | trim => rfl
  | _ => cases hrole

theorem Acts.of_none (h : Acts w w' st st') (hask : st.ask = none) : st' = st := by
  cases h with
  | trim => rfl
  | _ => cases hask

/-- A slot was there before, or its key was just claimed, or its connection is just kept. -/
theorem Acts.slot? {s : Slot} (h : Acts w w' st st') (hs : w'.registry.slot? key = some s) :
    w.registry.slot? key = some s ∨
    (∃ x g name fileTypes, ClaimsAs w w' st st' x g ∧ x.key.Same key ∧
      s = .starting g name fileTypes) ∨
    ∃ x g i, KeepsAs w w' st st' x g i ∧ x.key.Same key ∧ s = .ready g x.name i := by
  -- only a claim and a creation that is kept put a slot there; all else leaves or removes it
  cases h with
  | trim ht => exact .inl (ht.slot? key s hs)
  | opens hr => exact .inl (hr ▸ hs)
  | claim h =>
    obtain ⟨name, fileTypes, hslot⟩ := h.slot
    rw [hslot] at hs
    split at hs
    · next hsame =>
      cases hs
      exact .inr (.inl ⟨_, _, name, fileTypes, ⟨rfl, rfl, h⟩, hsame, rfl⟩)
    · exact .inl hs
  | keep hi hcurrent hup hr hlen =>
    have hkeeps := keepsAs_of_keep hi hcurrent hup hr
    rw [hr, slot?_fill] at hs
    split at hs
    · next hsame =>
      cases hs
      exact .inr (.inr ⟨_, _, _, hkeeps, hsame, rfl⟩)
    · exact .inl hs
  | fail ht => exact .inl (ht.slot? key s hs)
  | tell hr => exact .inl (by rwa [hr] at hs)
  | _ => next hw => exact .inl (hw.1 ▸ hs)

/-- A creation opens a connection. -/
structure OpensAs (w w' : World ε) (st st' : Stage) (x : Ask) (g : Nat) : Prop where
  before : ∃ opened, st = ⟨some x, .creates g, opened⟩
  opened : st'.opened = w.connections.length :: st.opened
  length : w'.connections.length = w.connections.length + 1

theorem Acts.opened (h : Acts w w' st st') :
    (w'.connections.length = w.connections.length ∧ st'.opened = st.opened) ∨
      ∃ x g, OpensAs w w' st st' x g := by
  cases h with
  | trim _ hlen => exact .inl ⟨hlen, rfl⟩
  | opens _ hopens =>
    cases hopens with
    | nothing hlen => exact .inl ⟨hlen, rfl⟩
    | one hlen => exact .inr ⟨_, _, ⟨_, rfl⟩, rfl, hlen⟩
  | claim _ _ hlen => exact .inl ⟨hlen, rfl⟩
  | keep _ _ _ _ hlen => exact .inl ⟨hlen, rfl⟩
  | fail _ _ hlen => exact .inl ⟨hlen, rfl⟩
  | tell _ hlen => exact .inl ⟨hlen, rfl⟩
  | _ => next hw => exact .inl ⟨hw.2, rfl⟩

theorem Acts.length_le (h : Acts w w' st st') :
    w.connections.length ≤ w'.connections.length := by
  rcases h.opened with ⟨hlen, -⟩ | ⟨x, g, hopens⟩
  · exact Nat.le_of_eq hlen.symm
  · rw [hopens.length]
    exact Nat.le_succ _

/-- There is no slot of the generation. -/
def Absent (g : Nat) (w : World ε) : Prop :=
  ∀ key s, w.registry.slot? key = some s → s.generation ≠ g

/-- A generation that has come and gone does not come back. -/
theorem Acts.absent (h : Acts w w' st st') (hlt : g < w.registry.nextGeneration)
    (habsent : Absent g w) : Absent g w' := by
  intro key s hs
  rcases h.slot? hs with hs | ⟨x, g', name, fileTypes, hclaims, -, rfl⟩ |
    ⟨x, g', i, hkeeps, -, rfl⟩
  · exact habsent key s hs
  · have hnumber := hclaims.claims.number
    change g' ≠ g
    omega
  · rintro rfl
    obtain ⟨s', hs', hg'⟩ := isCurrent_iff.1 hkeeps.current
    exact habsent x.key s' hs' hg'

/-! ### Where a caller stands -/

section Callers

variable {x : Ask} {p p' : Work ε Outcome} {started : List (Work ε Bool)}

/-- What bounds the wait of a caller that has looked its key up at a time. -/
def Ask.limit (x : Ask) (now : Nat) : Limit :=
  ⟨x.token, x.warmup.map fun t => (now + t, .timeout Method.handshake (t * 1000))⟩

/-- What a caller does about what it has found. -/
def answerTo (connect : Connector ε) (x : Ask) (limit : Limit) : Found → Work ε Outcome
  | .alive i => return .ok i
  | .starting g => outcomeOf g limit
  | .vacant g => do
    Program.start (creation connect x g)
    outcomeOf g limit

/-- The caller is about to look its key up. -/
def looksUp (connect : Connector ε) (x : Ask) (now : Nat) : Work ε Outcome :=
  Program.locked (claimNow x.key x.name x.config) >>= answerTo connect x (x.limit now)

/-- The caller has found that the registry is not shut down. -/
def goesOn (connect : Connector ε) (x : Ask) : Work ε Outcome := Work.now >>= looksUp connect x

/-- What a caller does when it has looked whether the registry is shut down. -/
def afterLook (connect : Connector ε) (x : Ask) : Bool → Work ε Outcome
  | true => return .error (.connectionClosed x.name none)
  | false => goesOn connect x

theorem getOrCreate_eq (connect : Connector ε) (x : Ask) :
    getOrCreate connect x.name x.config x.cwd x.warmup x.token =
      Program.look (fun w => w.registry.isShutDown) >>= afterLook connect x := by
  refine congrArg (Program.bind _) (funext fun down => ?_)
  cases down <;> rfl

/-- Where a caller may stand. -/
inductive Caller (connect : Connector ε) (x : Ask) : Work ε Outcome → Prop
  | asks : Caller connect x (getOrCreate connect x.name x.config x.cwd x.warmup x.token)
  | passed : Caller connect x (goesOn connect x)
  | looks (now : Nat) : Caller connect x (looksUp connect x now)
  | claimed (g : Nat) (limit : Limit) : Caller connect x (answerTo connect x limit (.vacant g))
  | waits (g : Nat) (limit : Limit) : Caller connect x (outcomeOf g limit)
  | done (r : Outcome) : Caller connect x (.done r)

/-- What a caller does in a step. -/
inductive CallerStep (connect : Connector ε) (x : Ask) (w w' : World ε) :
    Work ε Outcome → Work ε Outcome → List (Work ε Bool) → Prop
  | refused (h : w.registry.isShutDown = true) (hw : w' = w) : CallerStep connect x w w'
      (getOrCreate connect x.name x.config x.cwd x.warmup x.token)
      (.done (.error (.connectionClosed x.name none))) []
  | passes (h : w.registry.isShutDown = false) (hw : w' = w) : CallerStep connect x w w'
      (getOrCreate connect x.name x.config x.cwd x.warmup x.token) (goesOn connect x) []
  | reads (hw : w' = w) :
      CallerStep connect x w w' (goesOn connect x) (looksUp connect x w.clock) []
  | looks (now : Nat) (hw : w' = (claimNow x.key x.name x.config w).2) :
      CallerStep connect x w w' (looksUp connect x now)
        (answerTo connect x (x.limit now) (claimNow x.key x.name x.config w).1) []
  | hands (g : Nat) (limit : Limit) (hw : w' = w) :
      CallerStep connect x w w' (answerTo connect x limit (.vacant g)) (outcomeOf g limit)
        [creation connect x g]
  | ends (g : Nat) (limit : Limit) (r : Outcome) (hw : w' = w) :
      CallerStep connect x w w' (outcomeOf g limit) (.done r) []

theorem step_outcomeOf {g : Nat} {limit : Limit} (hs : Step w (outcomeOf g limit) w' p' started) :
    w' = w ∧ started = [] ∧ ∃ r, p' = .done r := by
  obtain ⟨r, hr, rfl, rfl⟩ := step_await_bind.1 hs
  refine ⟨?_, rfl, ?_⟩
  · split at hr
    · cases hr
      rfl
    · split at hr
      · next hout =>
        cases hr
        obtain ⟨_, -, heq⟩ := Option.map_eq_some_iff.1 hout
        cases heq
        rfl
      · obtain ⟨_, -, heq⟩ := Option.map_eq_some_iff.1 hr
        cases heq
        rfl
  · cases r with
    | ok r => exact ⟨r, rfl⟩
    | error e => exact ⟨.error e, rfl⟩

theorem step_getOrCreate
    (hs : Step w (getOrCreate connect x.name x.config x.cwd x.warmup x.token) w' p' started) :
    w' = w ∧ p' = afterLook connect x w.registry.isShutDown ∧ started = [] := by
  rw [getOrCreate_eq] at hs
  exact step_act_bind.1 hs

theorem Caller.step (h : Caller connect x p) (hs : Step w p w' p' started) :
    CallerStep connect x w w' p p' started := by
  cases h with
  | asks =>
    obtain ⟨rfl, rfl, rfl⟩ := step_getOrCreate hs
    cases hdown : w'.registry.isShutDown with
    | true => exact .refused hdown rfl
    | false => exact .passes hdown rfl
  | passed =>
    obtain ⟨rfl, rfl, rfl⟩ := step_act_bind.1 hs
    exact .reads rfl
  | looks now =>
    obtain ⟨rfl, rfl, rfl⟩ := step_locked_bind.1 hs
    exact .looks now rfl
  | claimed g limit =>
    cases hs with
    | spawn => exact .hands g limit rfl
  | waits g limit =>
    obtain ⟨rfl, rfl, r, rfl⟩ := step_outcomeOf hs
    exact .ends g limit r rfl
  | done r => cases hs

theorem caller_answerTo (limit : Limit) (found : Found) :
    Caller connect x (answerTo connect x limit found) := by
  cases found with
  | alive i => exact .done _
  | starting g => exact .waits g limit
  | vacant g => exact .claimed g limit

theorem CallerStep.caller (h : CallerStep connect x w w' p p' started) : Caller connect x p' := by
  cases h with
  | refused => exact .done _
  | passes => exact .passed
  | reads => exact .looks _
  | looks now => exact caller_answerTo _ _
  | hands g limit => exact .waits g limit
  | ends g limit r => exact .done r

/-- All clients of a run are callers. -/
theorem caller_of_run {R : Rules (World ε) Ask Outcome} {start c : Crew (World ε) Ask Outcome}
    {moments : List (Moment (World ε))} {k : Nat} (hR : R.program = (rules connect).program)
    (run : Run R start moments c) (hstart : start.clients = [])
    (hk : c.clients[k]? = some (x, p)) : Caller connect x p :=
  run.client_has (H := fun x p => Caller connect x p) (fun y => by rw [hR]; exact .asks)
    (fun _ _ _ _ _ _ hs hp => (hp.step hs).caller) hstart hk

/-! ### Clear of the gap -/

/-- The caller has yet to look whether the registry is shut down, or has looked its key up. -/
inductive Clear (connect : Connector ε) (x : Ask) : Work ε Outcome → Prop
  | asks : Clear connect x (getOrCreate connect x.name x.config x.cwd x.warmup x.token)
  | claimed (g : Nat) (limit : Limit) : Clear connect x (answerTo connect x limit (.vacant g))
  | waits (g : Nat) (limit : Limit) : Clear connect x (outcomeOf g limit)
  | done (r : Outcome) : Clear connect x (.done r)

/-- Whoever is clear when the registry is shut down stays so, and changes nothing. -/
theorem Clear.step (h : Clear connect x p) (hdown : w.registry.isShutDown = true)
    (hs : Step w p w' p' started) : w' = w ∧ Clear connect x p' := by
  cases h with
  | asks =>
    obtain ⟨rfl, rfl, -⟩ := step_getOrCreate hs
    rw [hdown]
    exact ⟨rfl, .done _⟩
  | claimed g limit =>
    cases hs with
    | spawn => exact ⟨rfl, .waits g limit⟩
  | waits g limit =>
    obtain ⟨rfl, -, r, rfl⟩ := step_outcomeOf hs
    exact ⟨rfl, .done r⟩
  | done r => cases hs

end Callers

end LspClient.Registry
