import LspClient.Proofs.Program.Steps
import Mathlib.Data.List.Induction
import Mathlib.Logic.Function.Basic

/-!
# Crews

A crew is a state and the programs that work on it: clients, each of which runs one program for a
result, and services, which are begun anew as long as they end with `true`. A crew goes on by
moves. In a move one of the programs takes one step, somebody joins, a service begins anew, or
something else changes the state. Nothing is said about who moves when, so the runs of a crew are
all interleavings of its programs.
-/

namespace LspClient

/-- Who makes a move. -/
inductive Actor where
  | client (k : Nat)
  | service (k : Nat)
  | outside
  deriving DecidableEq, Repr

section Families

variable {ι β γ : Type} [DecidableEq ι] {P : ι → β} {a : ι} {g : β}

/-- Of a family one member is put anew: what holds of a member then holds of the new one, or has
held of that member before. -/
theorem of_update (H : β → Prop) {b : ι} (h : H (Function.update P a g b)) :
    b = a ∧ H g ∨ b ≠ a ∧ H (P b) := by
  by_cases hb : b = a
  · subst hb
    rw [Function.update_self] at h
    exact .inl ⟨rfl, h⟩
  · rw [Function.update_of_ne hb] at h
    exact .inr ⟨hb, h⟩

theorem of_update_some {P : ι → Option β} {b : ι} {x y : β}
    (h : Function.update P a (some x) b = some y) : b = a ∧ y = x ∨ b ≠ a ∧ P b = some y :=
  (of_update (· = some y) h).imp_left (And.imp_right fun h => (Option.some.inj h).symm)

theorem of_update_none {P : ι → Option β} {b : ι} {y : β}
    (h : Function.update P a none b = some y) : b ≠ a ∧ P b = some y :=
  (of_update (· = some y) h).resolve_left fun h => nomatch h.2

/-- What the new member has of the old one, no member has lost. -/
theorem update_eq (f : β → γ) (hf : f g = f (P a)) (b : ι) :
    f (Function.update P a g b) = f (P b) := by
  by_cases hb : b = a
  · subst hb
    rw [Function.update_self, hf]
  · rw [Function.update_of_ne hb]

end Families

/-- A client stands under what it was asked to do; a service has its body and what is left. -/
structure Crew (σ κ ρ : Type) where
  state : σ
  clients : List (κ × Program σ ρ)
  services : List (Program σ Bool × Program σ Bool)

namespace Crew

variable {σ κ ρ γ : Type}

def ofState (s : σ) : Crew σ κ ρ := ⟨s, [], []⟩

/-- Services that stand at their beginning. -/
def fresh (bodies : List (Program σ Bool)) : List (Program σ Bool × Program σ Bool) :=
  bodies.map fun p => (p, p)

theorem of_mem_fresh {bodies : List (Program σ Bool)} {e : Program σ Bool × Program σ Bool}
    (he : e ∈ fresh bodies) : e.1 ∈ bodies ∧ e.2 = e.1 := by
  obtain ⟨p, hp, rfl⟩ := List.mem_map.1 he
  exact ⟨hp, rfl⟩

/-- Who may join, and what else may happen to the state. -/
structure Rules (σ κ ρ : Type) where
  program : κ → Program σ ρ
  Serves : Program σ Bool → Prop
  Outside : σ → σ → Prop

inductive Move (R : Rules σ κ ρ) : Crew σ κ ρ → Actor → Crew σ κ ρ → Prop
  | enter (c : Crew σ κ ρ) (a : κ) :
      Move R c (.client c.clients.length) { c with clients := c.clients ++ [(a, R.program a)] }
  | serve (c : Crew σ κ ρ) {p : Program σ Bool} (h : R.Serves p) :
      Move R c (.service c.services.length) { c with services := c.services ++ fresh [p] }
  | client {c : Crew σ κ ρ} {k : Nat} {a : κ} {p p' : Program σ ρ} {s : σ}
      {started : List (Program σ Bool)} (hk : c.clients[k]? = some (a, p))
      (h : Program.Step c.state p s p' started) :
      Move R c (.client k) ⟨s, c.clients.set k (a, p'), c.services ++ fresh started⟩
  | service {c : Crew σ κ ρ} {k : Nat} {body p p' : Program σ Bool} {s : σ}
      {started : List (Program σ Bool)} (hk : c.services[k]? = some (body, p))
      (h : Program.Step c.state p s p' started) :
      Move R c (.service k) ⟨s, c.clients, c.services.set k (body, p') ++ fresh started⟩
  | again {c : Crew σ κ ρ} {k : Nat} {body : Program σ Bool}
      (hk : c.services[k]? = some (body, .done true)) :
      Move R c (.service k) { c with services := c.services.set k (body, body) }
  | outside {c : Crew σ κ ρ} {s : σ} (h : R.Outside c.state s) :
      Move R c .outside { c with state := s }

/-- A move, as it is seen from the state. -/
structure Moment (σ : Type) where
  actor : Actor
  before : σ
  after : σ

/-- The runs of a crew, with their moments in order. -/
inductive Run (R : Rules σ κ ρ) (start : Crew σ κ ρ) : List (Moment σ) → Crew σ κ ρ → Prop
  | nil : Run R start [] start
  | move {moments : List (Moment σ)} {c c' : Crew σ κ ρ} {a : Actor} (run : Run R start moments c)
      (h : Move R c a c') : Run R start (moments ++ [⟨a, c.state, c'.state⟩]) c'

section Run

variable {R : Rules σ κ ρ} {start c c' : Crew σ κ ρ} {moments later : List (Moment σ)}
  {m : Moment σ} {a : Actor} {k : Nat}

/-- Every move of a crew is one by rules that allow more. -/
theorem Move.mono {R' : Rules σ κ ρ} (hmove : Move R c a c') (hprogram : R'.program = R.program)
    (hserves : ∀ p, R.Serves p → R'.Serves p)
    (houtside : ∀ s s', R.Outside s s' → R'.Outside s s') : Move R' c a c' := by
  cases hmove with
  | enter x =>
    have hmove := Move.enter (R := R') c x
    rwa [hprogram] at hmove
  | serve hp => exact .serve c (hserves _ hp)
  | client hk hstep => exact .client hk hstep
  | service hk hstep => exact .service hk hstep
  | again hk => exact .again hk
  | outside hs => exact .outside (houtside _ _ hs)

theorem Run.mono {R' : Rules σ κ ρ} (run : Run R start moments c)
    (hprogram : R'.program = R.program) (hserves : ∀ p, R.Serves p → R'.Serves p)
    (houtside : ∀ s s', R.Outside s s' → R'.Outside s s') : Run R' start moments c := by
  induction run with
  | nil => exact .nil
  | move _ hmove ih => exact ih.move (hmove.mono hprogram hserves houtside)

/-- A run that goes on with another. -/
theorem Run.append (run : Run R start moments c) (h : Run R c later c') :
    Run R start (moments ++ later) c' := by
  induction h with
  | nil => rwa [List.append_nil]
  | move _ hmove ih =>
    rw [← List.append_assoc]
    exact ih.move hmove

/-- A run, cut where a moment begins. -/
theorem Run.split (run : Run R start (moments ++ m :: later) c) :
    ∃ a c₁ c₂, m = ⟨a, c₁.state, c₂.state⟩ ∧ Run R start moments c₁ ∧ Move R c₁ a c₂ ∧
      Run R c₂ later c := by
  induction later using List.reverseRecOn generalizing c with
  | nil =>
    generalize hms : moments ++ [m] = ms at run
    cases run with
    | nil => simp at hms
    | move run hmove =>
      obtain ⟨rfl, rfl⟩ := List.append_singleton_inj.1 hms
      exact ⟨_, _, _, rfl, run, hmove, .nil⟩
  | append_singleton later m' ih =>
    generalize hms : moments ++ m :: (later ++ [m']) = ms at run
    rw [← List.cons_append, ← List.append_assoc] at hms
    cases run with
    | nil => simp at hms
    | move run hmove =>
      obtain ⟨rfl, rfl⟩ := List.append_singleton_inj.1 hms
      obtain ⟨a, c₁, c₂, heq, hbefore, hm, hlater⟩ := ih run
      exact ⟨a, c₁, c₂, heq, hbefore, hm, hlater.move hmove⟩

/-- What can be strung together, and holds from before to after every moment, holds from the start
on. -/
theorem Run.chain {G : σ → σ → Prop} (hrefl : ∀ s, G s s)
    (htrans : ∀ s s' s'', G s s' → G s' s'' → G s s'') (run : Run R start moments c)
    (hG : ∀ m ∈ moments, G m.before m.after) :
    G start.state c.state ∧ ∀ m ∈ moments, G start.state m.before ∧ G start.state m.after := by
  induction run with
  | nil => exact ⟨hrefl _, nofun⟩
  | move run hmove ih =>
    obtain ⟨hstate, hmoments⟩ := ih fun m hm => hG m (List.mem_append_left _ hm)
    have hlast := hG _ (List.mem_append_right _ (List.mem_singleton_self _))
    have hgo := htrans _ _ _ hstate hlast
    refine ⟨hgo, fun m hm => ?_⟩
    rcases List.mem_append.1 hm with hm | hm
    · exact hmoments m hm
    · obtain rfl := List.mem_singleton.1 hm
      exact ⟨hstate, hgo⟩

/-- The same from a moment on. -/
theorem Run.chain_from {G : σ → σ → Prop} (hrefl : ∀ s, G s s)
    (htrans : ∀ s s' s'', G s s' → G s' s'' → G s s'')
    (run : Run R start (moments ++ m :: later) c)
    (hG : ∀ m' ∈ moments ++ m :: later, G m'.before m'.after) :
    G m.before c.state ∧ ∀ m' ∈ m :: later, G m.before m'.after := by
  obtain ⟨a, c₁, c₂, rfl, -, -, hlater⟩ := run.split
  have hm : G c₁.state c₂.state :=
    hG _ (List.mem_append_right _ (List.mem_cons_self ..))
  obtain ⟨hstate, hmoments⟩ := hlater.chain hrefl htrans fun m' hm' =>
    hG m' (List.mem_append_right _ (List.mem_cons_of_mem _ hm'))
  refine ⟨htrans _ _ _ hm hstate, fun m' hm' => ?_⟩
  rcases List.mem_cons.1 hm' with rfl | hm'
  · exact hm
  · exact htrans _ _ _ hm (hmoments m' hm').2

/-- What holds before a moment holds to the end, or stops at some moment from then on. -/
theorem Run.holds_or_stops (p : σ → Prop) (run : Run R start (moments ++ m :: later) c)
    (hm : p m.before) : p c.state ∨ ∃ m' ∈ m :: later, p m'.before ∧ ¬ p m'.after := by
  by_contra hnot
  rw [not_or] at hnot
  obtain ⟨hend, hstops⟩ := hnot
  have hgoes : ∀ m' ∈ m :: later, p m'.before → p m'.after := fun m' hm' hbefore =>
    Classical.byContradiction fun hafter => hstops ⟨m', hm', hbefore, hafter⟩
  obtain ⟨a, c₁, c₂, rfl, -, -, hlater⟩ := run.split
  have hchain := hlater.chain (G := fun s s' => p s → p s') (fun _ h => h)
    (fun _ _ _ h h' hs => h' (h hs)) fun m' hm' => hgoes m' (List.mem_cons_of_mem _ hm')
  exact hend (hchain.1 (hgoes _ (List.mem_cons_self ..) hm))

/-- The state is the one at the start, or the one after some moment. -/
theorem Run.state_cases (run : Run R start moments c) :
    c.state = start.state ∨ ∃ m ∈ moments, c.state = m.after := by
  cases run with
  | nil => exact .inl rfl
  | move run hmove =>
    exact .inr ⟨_, List.mem_append_right _ (List.mem_singleton_self _), rfl⟩

theorem Run.before_cases (run : Run R start moments c) (hm : m ∈ moments) :
    m.before = start.state ∨ ∃ m' ∈ moments, m.before = m'.after := by
  obtain ⟨earlier, later, rfl⟩ := List.append_of_mem hm
  obtain ⟨a, c₁, c₂, rfl, hrun, -, -⟩ := run.split
  exact hrun.state_cases.imp_right fun ⟨m', hm', heq⟩ =>
    ⟨m', List.mem_append_left _ hm', heq⟩

/-- Nobody has entered. -/
def NoneEnters (c c' : Crew σ κ ρ) : Prop :=
  ∀ (k : Nat) (x : κ) (p : Program σ ρ), c'.clients[k]? = some (x, p) →
    ∃ q, c.clients[k]? = some (x, q)

theorem noneEnters_of_clients_eq (h : c'.clients = c.clients) : NoneEnters c c' :=
  fun _ _ p hk => ⟨p, h ▸ hk⟩

theorem noneEnters_set {j : Nat} {y : κ} {q q' : Program σ ρ} (hj : c.clients[j]? = some (y, q))
    (h : c'.clients = c.clients.set j (y, q')) : NoneEnters c c' := by
  intro k x p hk
  rw [h] at hk
  by_cases hkj : k = j
  · subst hkj
    rw [List.getElem?_set_self (List.getElem?_eq_some_iff.1 hj).1] at hk
    cases hk
    exact ⟨q, hj⟩
  · rw [List.getElem?_set_ne (Ne.symm hkj)] at hk
    exact ⟨p, hk⟩

/-- A client is there after a move if it was there before, or has just entered. -/
theorem Move.was_client_or_enters {x : κ} {p : Program σ ρ} (hmove : Move R c a c')
    (hk : c'.clients[k]? = some (x, p)) :
    (∃ q, c.clients[k]? = some (x, q)) ∨ (a = .client k ∧ k = c.clients.length) := by
  cases hmove with
  | enter y =>
    rcases Nat.lt_or_ge k c.clients.length with hlt | hge
    · rw [List.getElem?_append_left hlt] at hk
      exact .inl ⟨p, hk⟩
    · have hlen := (List.getElem?_eq_some_iff.1 hk).1
      rw [List.length_append, List.length_singleton] at hlen
      obtain rfl : k = c.clients.length := by omega
      exact .inr ⟨rfl, rfl⟩
  | client hj hstep => exact .inl (noneEnters_set hj rfl k x p hk)
  | _ => exact .inl ⟨p, hk⟩

/-- A client stays under what it was asked to do. -/
theorem Move.client_stays {x : κ} {p : Program σ ρ} (hmove : Move R c a c')
    (hk : c.clients[k]? = some (x, p)) : ∃ q, c'.clients[k]? = some (x, q) := by
  have hlt := (List.getElem?_eq_some_iff.1 hk).1
  cases hmove with
  | enter y => exact ⟨p, by rw [List.getElem?_append_left hlt, hk]⟩
  | @client j y q q' s started hj hstep =>
    by_cases hkj : k = j
    · subst hkj
      rw [hk] at hj
      cases hj
      exact ⟨q', List.getElem?_set_self hlt⟩
    · exact ⟨p, by rw [List.getElem?_set_ne (Ne.symm hkj), hk]⟩
  | _ => exact ⟨p, hk⟩

/-- A service keeps its body. -/
theorem Move.service_stays {body p : Program σ Bool} (hmove : Move R c a c')
    (hk : c.services[k]? = some (body, p)) : ∃ q, c'.services[k]? = some (body, q) := by
  have hlt := (List.getElem?_eq_some_iff.1 hk).1
  cases hmove with
  | serve h => exact ⟨p, by rw [List.getElem?_append_left hlt, hk]⟩
  | client hj hstep => exact ⟨p, by rw [List.getElem?_append_left hlt, hk]⟩
  | @service j body' q q' s started hj hstep =>
    rw [List.getElem?_append_left (by simpa using hlt)]
    by_cases hkj : k = j
    · subst hkj
      rw [hk] at hj
      cases hj
      exact ⟨q', List.getElem?_set_self hlt⟩
    · exact ⟨p, by rw [List.getElem?_set_ne (Ne.symm hkj), hk]⟩
  | @again j body' hj =>
    by_cases hkj : k = j
    · subst hkj
      rw [hk] at hj
      cases hj
      exact ⟨body, List.getElem?_set_self hlt⟩
    · exact ⟨p, by rw [List.getElem?_set_ne (Ne.symm hkj), hk]⟩
  | _ => exact ⟨p, hk⟩

/-- A service is new, or where it was, or one step further, or it begins anew. -/
theorem Move.service_cases {body p : Program σ Bool} (hmove : Move R c a c')
    (hk : c'.services[k]? = some (body, p)) : (c.services.length ≤ k ∧ p = body) ∨
      ∃ q, c.services[k]? = some (body, q) ∧
        (q = p ∨ p = body ∨ ∃ started, Program.Step c.state q c'.state p started) := by
  -- what was appended has not made a step yet
  have happend {l : List (Program σ Bool × Program σ Bool)} {bodies : List (Program σ Bool)}
      (h : (l ++ fresh bodies)[k]? = some (body, p)) :
      (l.length ≤ k ∧ p = body) ∨ l[k]? = some (body, p) := by
    rcases Nat.lt_or_ge k l.length with hlt | hge
    · exact .inr (by rwa [List.getElem?_append_left hlt] at h)
    · rw [List.getElem?_append_right hge] at h
      obtain ⟨q, -, heq⟩ := List.mem_map.1 (List.mem_of_getElem? h)
      cases heq
      exact .inl ⟨hge, rfl⟩
  cases hmove with
  | serve h => exact (happend hk).imp_right fun hk => ⟨p, hk, .inl rfl⟩
  | client hj hstep => exact (happend hk).imp_right fun hk => ⟨p, hk, .inl rfl⟩
  | @service j body' q q' s started hj hstep =>
    refine (happend hk).imp (fun h => ⟨by simpa using h.1, h.2⟩) fun hk => ?_
    by_cases hkj : k = j
    · subst hkj
      rw [List.getElem?_set_self (List.getElem?_eq_some_iff.1 hj).1] at hk
      cases hk
      exact ⟨q, hj, .inr (.inr ⟨started, hstep⟩)⟩
    · rw [List.getElem?_set_ne (Ne.symm hkj)] at hk
      exact ⟨p, hk, .inl rfl⟩
  | @again j body' hj =>
    by_cases hkj : k = j
    · subst hkj
      rw [List.getElem?_set_self (List.getElem?_eq_some_iff.1 hj).1] at hk
      cases hk
      exact .inr ⟨_, hj, .inr (.inl rfl)⟩
    · rw [List.getElem?_set_ne (Ne.symm hkj)] at hk
      exact .inr ⟨p, hk, .inl rfl⟩
  | _ => exact .inr ⟨p, hk, .inl rfl⟩

/-- A move of a service is a step of it, or leaves the state as it is. -/
theorem Move.of_service (hmove : Move R c (.service k) c') : k < c'.services.length ∧
    (c'.state = c.state ∨ ∃ body q p started, c.services[k]? = some (body, q) ∧
      Program.Step c.state q c'.state p started) := by
  cases hmove with
  | serve h => exact ⟨by simp [fresh], .inl rfl⟩
  | service hk hstep =>
    have hlt := (List.getElem?_eq_some_iff.1 hk).1
    exact ⟨by simp; omega, .inr ⟨_, _, _, _, hk, hstep⟩⟩
  | again hk => exact ⟨by simpa using (List.getElem?_eq_some_iff.1 hk).1, .inl rfl⟩

/-- A client that makes a move is there afterwards. -/
theorem Move.client_lt (hmove : Move R c (.client k) c') : k < c'.clients.length := by
  cases hmove with
  | enter x => simp
  | client hk hstep => simpa using (List.getElem?_eq_some_iff.1 hk).1

/-- A service that is there when it makes a move takes a step, or begins anew. -/
theorem Move.service_step {body p : Program σ Bool} (hmove : Move R c (.service k) c')
    (hk : c.services[k]? = some (body, p)) : p = .done true ∨
      ∃ p' s started, Program.Step c.state p s p' started ∧
        c' = ⟨s, c.clients, c.services.set k (body, p') ++ fresh started⟩ := by
  cases hmove with
  | serve h => exact absurd (List.getElem?_eq_some_iff.1 hk).1 (Nat.lt_irrefl _)
  | service hk' hstep =>
    rw [hk] at hk'
    cases hk'
    exact .inr ⟨_, _, _, hstep, rfl⟩
  | again hk' =>
    rw [hk] at hk'
    cases hk'
    exact .inl rfl

theorem Move.length_services_le (hmove : Move R c a c') :
    c.services.length ≤ c'.services.length := by
  cases hmove <;> simp

/-- A service that has made a move is there. -/
theorem Run.service_there (run : Run R start moments c) (hm : m ∈ moments)
    (hactor : m.actor = .service k) : k < c.services.length := by
  induction run with
  | nil => cases hm
  | move run hmove ih =>
    rcases List.mem_append.1 hm with hm | hm
    · exact Nat.lt_of_lt_of_le (ih hm) hmove.length_services_le
    · obtain rfl := List.mem_singleton.1 hm
      subst hactor
      exact hmove.of_service.1

/-- If all steps of the body of a service are alike, so are the moves of the service. -/
theorem Run.keeps_service {G : σ → σ → Prop} (hG : ∀ s, G s s) (run : Run R start moments c)
    (hstart : start.services = []) :
    (∀ (k : Nat) (body p : Program σ Bool), c.services[k]? = some (body, p) →
      Program.Keeps G body → Program.Keeps G p) ∧
    ∀ m ∈ moments, ∀ (k : Nat) (body p : Program σ Bool), m.actor = .service k →
      c.services[k]? = some (body, p) → Program.Keeps G body → G m.before m.after := by
  induction run with
  | nil => exact ⟨fun k body p hk => by simp [hstart] at hk, nofun⟩
  | @move moments c c' a run hmove ih =>
    obtain ⟨hkeeps, hmoments⟩ := ih
    refine ⟨fun k body p hk hbody => ?_, fun m hm k body p hactor hk hbody => ?_⟩
    · rcases hmove.service_cases hk with ⟨-, rfl⟩ | ⟨q, hq, rfl | rfl | ⟨started, hstep⟩⟩
      · exact hbody
      · exact hkeeps k body q hq hbody
      · exact hbody
      · exact ((hkeeps k body q hq hbody).step hG hstep).2.1
    · rcases List.mem_append.1 hm with hm | hm
      · rcases hmove.service_cases hk with ⟨hle, -⟩ | ⟨q, hq, -⟩
        · exact absurd (run.service_there hm hactor) (Nat.not_lt.2 hle)
        · exact hmoments m hm k body q hactor hq hbody
      · obtain rfl := List.mem_singleton.1 hm
        subst hactor
        rcases hmove.of_service.2 with hs | ⟨body', q, p', started, hq, hstep⟩
        · rw [hs]
          exact hG _
        · obtain ⟨p'', hp''⟩ := hmove.service_stays hq
          rw [hk] at hp''
          cases hp''
          exact ((hkeeps k body q hq hbody).step hG hstep).1

/-- All members take steps of one kind only. -/
structure AllKeep (G : σ → σ → Prop) (c : Crew σ κ ρ) : Prop where
  clients : ∀ e ∈ c.clients, e.2.Keeps G
  services : ∀ e ∈ c.services, e.1.Keeps G ∧ e.2.Keeps G

theorem allKeep_ofState {G : σ → σ → Prop} (s : σ) : AllKeep G (ofState s : Crew σ κ ρ) :=
  ⟨nofun, nofun⟩

/-- Who may join takes steps of one kind only, and nothing else happens. -/
structure Rules.Keep (R : Rules σ κ ρ) (G : σ → σ → Prop) : Prop where
  refl : ∀ s, G s s
  program : ∀ x, (R.program x).Keeps G
  serves : ∀ p, R.Serves p → p.Keeps G
  outside : ∀ s s', R.Outside s s' → G s s'

section AllKeep

variable {G : σ → σ → Prop} {s : σ} {clients : List (κ × Program σ ρ)}
  {services : List (Program σ Bool × Program σ Bool)}

theorem AllKeep.set_client {x : κ} {p : Program σ ρ} (h : AllKeep G ⟨s, clients, services⟩)
    (hp : p.Keeps G) : AllKeep G ⟨s, clients.set k (x, p), services⟩ := by
  refine ⟨fun e he => ?_, h.services⟩
  rcases List.mem_or_eq_of_mem_set he with he | rfl
  · exact h.clients e he
  · exact hp

theorem AllKeep.set_service {body p : Program σ Bool} (h : AllKeep G ⟨s, clients, services⟩)
    (hbody : body.Keeps G) (hp : p.Keeps G) :
    AllKeep G ⟨s, clients, services.set k (body, p)⟩ := by
  refine ⟨h.clients, fun e he => ?_⟩
  rcases List.mem_or_eq_of_mem_set he with he | rfl
  · exact h.services e he
  · exact ⟨hbody, hp⟩

theorem AllKeep.begin {bodies : List (Program σ Bool)} (h : AllKeep G ⟨s, clients, services⟩)
    (hbodies : ∀ p ∈ bodies, p.Keeps G) (s' : σ) :
    AllKeep G ⟨s', clients, services ++ fresh bodies⟩ := by
  refine ⟨h.clients, fun e he => ?_⟩
  rcases List.mem_append.1 he with he | he
  · exact h.services e he
  · obtain ⟨p, hp, rfl⟩ := List.mem_map.1 he
    exact ⟨hbodies p hp, hbodies p hp⟩

end AllKeep

theorem Move.keeps {G : σ → σ → Prop} (hR : R.Keep G) (h : AllKeep G c) (hmove : Move R c a c') :
    G c.state c'.state ∧ AllKeep G c' := by
  cases hmove with
  | enter x =>
    refine ⟨hR.refl _, fun e he => ?_, h.services⟩
    rcases List.mem_append.1 he with he | he
    · exact h.clients e he
    · obtain rfl := List.mem_singleton.1 he
      exact hR.program x
  | serve hp => exact ⟨hR.refl _, h.begin (by simpa using hR.serves _ hp) _⟩
  | client hk hstep =>
    obtain ⟨hG, hp', hstarted⟩ := (h.clients _ (List.mem_of_getElem? hk)).step hR.refl hstep
    exact ⟨hG, (h.set_client hp').begin hstarted _⟩
  | service hk hstep =>
    obtain ⟨hbody, hp⟩ := h.services _ (List.mem_of_getElem? hk)
    obtain ⟨hG, hp', hstarted⟩ := hp.step hR.refl hstep
    exact ⟨hG, (h.set_service hbody hp').begin hstarted _⟩
  | again hk =>
    have hbody := (h.services _ (List.mem_of_getElem? hk)).1
    exact ⟨hR.refl _, h.set_service hbody hbody⟩
  | outside hs => exact ⟨hR.outside _ _ hs, h.clients, h.services⟩

theorem Run.keeps {G : σ → σ → Prop} (hR : R.Keep G) (h : AllKeep G start)
    (run : Run R start moments c) : (∀ m ∈ moments, G m.before m.after) ∧ AllKeep G c := by
  induction run with
  | nil => exact ⟨nofun, h⟩
  | move _ hmove ih =>
    obtain ⟨hG, hkeep⟩ := hmove.keeps hR ih.2
    refine ⟨fun m hm => ?_, hkeep⟩
    rcases List.mem_append.1 hm with hm | hm
    · exact ih.1 m hm
    · obtain rfl := List.mem_singleton.1 hm
      exact hG

/-- Who is there has made a move, if nobody was there to begin with. -/
theorem Run.entered {x : κ} {p : Program σ ρ} (run : Run R start moments c)
    (hstart : start.clients = []) (hk : c.clients[k]? = some (x, p)) :
    ∃ m ∈ moments, m.actor = .client k := by
  induction run generalizing p with
  | nil => simp [hstart] at hk
  | move run hmove ih =>
    rcases hmove.was_client_or_enters hk with ⟨q, hq⟩ | ⟨rfl, -⟩
    · obtain ⟨m, hm, hactor⟩ := ih hq
      exact ⟨m, List.mem_append_left _ hm, hactor⟩
    · exact ⟨_, List.mem_append_right _ (List.mem_singleton_self _), rfl⟩

end Run

/-- The runs all of whose crews satisfy `Φ`. -/
inductive RunIn (R : Rules σ κ ρ) (Φ : Crew σ κ ρ → Prop) (start : Crew σ κ ρ) :
    List (Moment σ) → Crew σ κ ρ → Prop
  | nil (h : Φ start) : RunIn R Φ start [] start
  | move {moments : List (Moment σ)} {c c' : Crew σ κ ρ} {a : Actor}
      (run : RunIn R Φ start moments c) (h : Move R c a c') (hc' : Φ c') :
      RunIn R Φ start (moments ++ [⟨a, c.state, c'.state⟩]) c'

/-- The program of an actor has come to its end. -/
def IsOver (c : Crew σ κ ρ) : Actor → Prop
  | .client k => ∃ x r, c.clients[k]? = some (x, .done r)
  | .service k => ∃ body again, c.services[k]? = some (body, .done again)
  | .outside => False

end Crew

end LspClient
