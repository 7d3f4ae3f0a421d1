import LspClient.Proofs.Program.Crew
import Mathlib.Logic.Function.Basic

/-!
# Crews that follow a discipline

If all programs follow a discipline, so does every move: there is an assignment of stages to the
members of the crew that goes on with the run (`Move.staged`). A client begins at a stage that may
hang on what it was asked to do, and a service at the stage that was handed over to it.
-/

namespace LspClient.Crew

universe u

variable {σ κ ρ γ : Type} {τ : Type u} {α : Type} {D : Program.Discipline σ γ}

/-- The programs of a list stand at the stages of their places; no place behind them is taken. -/
structure Lineup (D : Program.Discipline σ γ) (Q : τ → γ → α → Prop) (stage : Nat → γ)
    (l : List (τ × Program σ α)) : Prop where
  follows : ∀ (k : Nat) (x : τ) (p : Program σ α), l[k]? = some (x, p) →
    p.Follows D (stage k) (Q x)
  idle : ∀ k, l.length ≤ k → stage k = D.idle

namespace Lineup

variable {Q : τ → γ → α → Prop} {stage : Nat → γ} {l : List (τ × Program σ α)}

theorem nil : Lineup D Q (fun _ => D.idle) ([] : List (τ × Program σ α)) :=
  ⟨fun k x p h => by simp at h, fun _ _ => rfl⟩

theorem append {new : List (τ × Program σ α)} (h : Lineup D Q stage l)
    (hnew : ∀ e ∈ new, e.2.Follows D D.idle (Q e.1)) : Lineup D Q stage (l ++ new) := by
  refine ⟨fun k x p hk => ?_, fun k hk => h.idle k ?_⟩
  · rcases Nat.lt_or_ge k l.length with hlt | hge
    · rw [List.getElem?_append_left hlt] at hk
      exact h.follows k x p hk
    · rw [List.getElem?_append_right hge] at hk
      rw [h.idle k hge]
      exact hnew (x, p) (List.mem_of_getElem? hk)
  · rw [List.length_append] at hk
    omega

theorem append_one {g : γ} {x : τ} {p : Program σ α} (h : Lineup D Q stage l)
    (hp : p.Follows D g (Q x)) :
    Lineup D Q (Function.update stage l.length g) (l ++ [(x, p)]) := by
  refine ⟨fun k y q hk => ?_, fun k hk => ?_⟩
  · rcases Nat.lt_or_ge k l.length with hlt | hge
    · rw [List.getElem?_append_left hlt] at hk
      rw [Function.update_of_ne (by omega)]
      exact h.follows k y q hk
    · obtain ⟨hlen, heq⟩ := List.getElem?_eq_some_iff.1 hk
      rw [List.length_append, List.length_singleton] at hlen
      obtain rfl : k = l.length := by omega
      rw [List.getElem_concat_length rfl] at heq
      cases heq
      rw [Function.update_self]
      exact hp
  · rw [List.length_append, List.length_singleton] at hk
    rw [Function.update_of_ne (by omega)]
    exact h.idle k (by omega)

theorem set {k : Nat} {g : γ} {x : τ} {p p' : Program σ α} (hk : l[k]? = some (x, p))
    (hp' : p'.Follows D g (Q x)) (h : Lineup D Q stage l) :
    Lineup D Q (Function.update stage k g) (l.set k (x, p')) := by
  have hlt : k < l.length := (List.getElem?_eq_some_iff.1 hk).1
  refine ⟨fun j y q hj => ?_, fun j hj => ?_⟩
  · by_cases hjk : j = k
    · subst hjk
      rw [List.getElem?_set_self hlt] at hj
      cases hj
      rw [Function.update_self]
      exact hp'
    · rw [List.getElem?_set_ne (Ne.symm hjk)] at hj
      rw [Function.update_of_ne hjk]
      exact h.follows j y q hj
  · rw [List.length_set] at hj
    rw [Function.update_of_ne (by omega)]
    exact h.idle j hj

end Lineup

variable {R : Rules σ κ ρ} {begins : κ → γ} {Q : κ → γ → ρ → Prop}

/-- All who may join follow the discipline, and nothing else breaks it. -/
structure Rules.Obeys (R : Rules σ κ ρ) (D : Program.Discipline σ γ) (begins : κ → γ)
    (Q : κ → γ → ρ → Prop) : Prop where
  program : ∀ x, (R.program x).Follows D (begins x) (Q x)
  serves : ∀ p, R.Serves p → p.Follows D D.idle D.AtRest
  outside : ∀ s s', D.Inv s → R.Outside s s' → D.Acts D.idle s s' D.idle

/-- A service ends at rest, and can be begun anew if it is to be. -/
def Renews (D : Program.Discipline σ γ) (body : Program σ Bool) (g : γ) (again : Bool) : Prop :=
  D.AtRest g again ∧ (again = true → body.Follows D D.idle D.AtRest)

theorem renews_of_atRest {p : Program σ Bool} (hp : p.Follows D D.idle D.AtRest) :
    p.Follows D D.idle (Renews D p) :=
  hp.mono fun _ _ h => ⟨h, fun _ => hp⟩

theorem renews_of_over {g : γ} {body p : Program σ Bool} (hp : p.Follows D g D.Over) :
    p.Follows D g (Renews D body) := by
  refine hp.mono fun g' again h => ⟨⟨h.1, fun hagain => ?_⟩, fun hagain => ?_⟩
  · cases h.2.symm.trans hagain
  · cases h.2.symm.trans hagain

/-- The members of a crew stand at the stages `P`. -/
structure Staged (D : Program.Discipline σ γ) (Q : κ → γ → ρ → Prop) (P : Actor → γ)
    (c : Crew σ κ ρ) : Prop where
  inv : D.Inv c.state
  clients : Lineup D Q (P ∘ Actor.client) c.clients
  services : Lineup D (Renews D) (P ∘ Actor.service) c.services
  outside : P .outside = D.idle

theorem staged_ofState {s : σ} (hinv : D.Inv s) :
    Staged D Q (fun _ => D.idle) (ofState s : Crew σ κ ρ) :=
  ⟨hinv, .nil, .nil, rfl⟩

variable {P : Actor → γ} {c c' : Crew σ κ ρ} {a : Actor}

/-- New services stand at the beginning of what they follow. -/
theorem Staged.start {bodies : List (Program σ Bool)} (h : Staged D Q P c)
    (hbodies : ∀ p ∈ bodies, p.Follows D D.idle D.AtRest) :
    Staged D Q P { c with services := c.services ++ fresh bodies } := by
  refine ⟨h.inv, h.clients, h.services.append fun e he => ?_, h.outside⟩
  obtain ⟨hmem, heq⟩ := of_mem_fresh he
  rw [heq]
  exact renews_of_atRest (hbodies e.1 hmem)

/-- A new service stands at what was handed over to it. -/
theorem Staged.hand {i : γ} {p : Program σ Bool} (h : Staged D Q P c) (hp : p.Follows D i D.Over) :
    Staged D Q (Function.update P (.service c.services.length) i)
      { c with services := c.services ++ fresh [p] } := by
  refine ⟨h.inv, ?_, ?_, ?_⟩
  · rw [Function.update_comp_eq_of_forall_ne P i (by simp)]
    exact h.clients
  · rw [Function.update_comp_eq_of_injective P fun _ _ h => Actor.service.inj h]
    exact h.services.append_one (renews_of_over hp)
  · simpa using h.outside

theorem Staged.enter {x : κ} {p : Program σ ρ} {g : γ} (h : Staged D Q P c)
    (hp : p.Follows D g (Q x)) :
    Staged D Q (Function.update P (.client c.clients.length) g)
      { c with clients := c.clients ++ [(x, p)] } := by
  refine ⟨h.inv, ?_, ?_, ?_⟩
  · rw [Function.update_comp_eq_of_injective P fun _ _ h => Actor.client.inj h]
    exact h.clients.append_one hp
  · rw [Function.update_comp_eq_of_forall_ne P g (by simp)]
    exact h.services
  · simpa using h.outside

theorem Staged.set_client {k : Nat} {g : γ} {x : κ} {s : σ} {p p' : Program σ ρ}
    (h : Staged D Q P c) (hk : c.clients[k]? = some (x, p)) (hs : D.Inv s)
    (hp' : p'.Follows D g (Q x)) :
    Staged D Q (Function.update P (.client k) g) ⟨s, c.clients.set k (x, p'), c.services⟩ := by
  refine ⟨hs, ?_, ?_, ?_⟩
  · rw [Function.update_comp_eq_of_injective P fun _ _ h => Actor.client.inj h]
    exact h.clients.set hk hp'
  · rw [Function.update_comp_eq_of_forall_ne P g (by simp)]
    exact h.services
  · simpa using h.outside

theorem Staged.set_service {k : Nat} {g : γ} {s : σ} {body p p' : Program σ Bool}
    (h : Staged D Q P c) (hk : c.services[k]? = some (body, p)) (hs : D.Inv s)
    (hp' : p'.Follows D g (Renews D body)) :
    Staged D Q (Function.update P (.service k) g)
      ⟨s, c.clients, c.services.set k (body, p')⟩ := by
  refine ⟨hs, ?_, ?_, ?_⟩
  · rw [Function.update_comp_eq_of_forall_ne P g (by simp)]
    exact h.clients
  · rw [Function.update_comp_eq_of_injective P fun _ _ h => Actor.service.inj h]
    exact h.services.set hk hp'
  · simpa using h.outside

/-- What a move makes of the stages. -/
inductive Goes (D : Program.Discipline σ γ) (begins : κ → γ) (P : Actor → γ) (c : Crew σ κ ρ) :
    Actor → Crew σ κ ρ → (Actor → γ) → Prop
  | acts {a : Actor} {c' : Crew σ κ ρ} {g : γ} (h : D.Acts (P a) c.state c'.state g)
      (hnone : NoneEnters c c') : Goes D begins P c a c' (Function.update P a g)
  | enters {c' : Crew σ κ ρ} {x : κ} {p : Program σ ρ} (hs : c'.state = c.state)
      (hc : c'.clients = c.clients ++ [(x, p)]) :
      Goes D begins P c (.client c.clients.length) c'
        (Function.update P (.client c.clients.length) (begins x))
  | hands {a : Actor} {c' : Crew σ κ ρ} {body : Program σ Bool} {i g : γ}
      (hs : c'.state = c.state) (h : D.Hands (P a) body i g) (hnone : NoneEnters c c')
      (hnew : c'.services[c.services.length]? = some (body, body)) :
      Goes D begins P c a c'
        (Function.update (Function.update P a g) (.service c.services.length) i)

/-- Every move goes on from the stage of the one who makes it. -/
theorem Move.staged (hR : R.Obeys D begins Q) (h : Staged D Q P c) (hmove : Move R c a c') :
    ∃ P', Goes D begins P c a c' P' ∧ Staged D Q P' c' := by
  cases hmove with
  | enter x => exact ⟨_, .enters rfl rfl, h.enter (hR.program x)⟩
  | serve hp =>
    refine ⟨_, .acts (D.acts_self h.inv) (noneEnters_of_clients_eq rfl), ?_⟩
    rw [Function.update_eq_self]
    exact h.start (by simpa using hR.serves _ hp)
  | client hk hstep =>
    obtain ⟨g, hgoes, hp'⟩ := (h.clients.follows _ _ _ hk).step hstep h.inv
    cases hgoes with
    | acts hacts hstarted =>
      exact ⟨_, .acts hacts (noneEnters_set hk rfl),
        (h.set_client hk (D.inv_of_acts h.inv hacts) hp').start hstarted⟩
    | hands hs hhands hservice =>
      subst hs
      exact ⟨_, .hands rfl hhands (noneEnters_set hk rfl) (by simp [fresh]),
        (h.set_client hk h.inv hp').hand hservice⟩
  | service hk hstep =>
    obtain ⟨g, hgoes, hp'⟩ := (h.services.follows _ _ _ hk).step hstep h.inv
    cases hgoes with
    | acts hacts hstarted =>
      exact ⟨_, .acts hacts (noneEnters_of_clients_eq rfl),
        (h.set_service hk (D.inv_of_acts h.inv hacts) hp').start hstarted⟩
    | hands hs hhands hservice =>
      subst hs
      have hnew := (h.set_service hk h.inv hp').hand hservice
      rw [List.length_set] at hnew
      exact ⟨_, .hands rfl hhands (noneEnters_of_clients_eq rfl) (by simp [fresh]), hnew⟩
  | @again k body hk =>
    -- the service has ended with `true`, which it may only do at rest
    obtain ⟨⟨-, hrest⟩, hbody⟩ := h.services.follows _ _ _ hk
    refine ⟨_, .acts (D.acts_self h.inv) (noneEnters_of_clients_eq rfl),
      h.set_service hk h.inv ?_⟩
    rw [show P (.service k) = D.idle from hrest rfl]
    exact renews_of_atRest (hbody rfl)
  | outside hs =>
    have hacts := hR.outside _ _ h.inv hs
    refine ⟨_, .acts (g := D.idle) (by rwa [h.outside]) (noneEnters_of_clients_eq rfl), ?_⟩
    rw [← h.outside, Function.update_eq_self]
    exact ⟨D.inv_of_acts h.inv hacts, h.clients, h.services, h.outside⟩

/-- Where nothing is handed over to anybody, every move is one that the discipline allows at the
stage of the one who makes it. -/
theorem Move.staged_acts (hR : R.Obeys D (fun _ => D.idle) Q)
    (hD : ∀ g body i g', ¬ D.Hands g body i g') (h : Staged D Q P c) (hmove : Move R c a c') :
    ∃ g, D.Acts (P a) c.state c'.state g ∧ Staged D Q (Function.update P a g) c' := by
  obtain ⟨P', hgoes, hstaged⟩ := hmove.staged hR h
  cases hgoes with
  | acts hacts => exact ⟨_, hacts, hstaged⟩
  | enters hs =>
    rw [← h.clients.idle _ (Nat.le_refl _)] at hstaged
    refine ⟨_, ?_, hstaged⟩
    rw [hs]
    exact D.acts_self h.inv
  | hands _ hhands => exact absurd hhands (hD _ _ _ _)

end LspClient.Crew
