import LspClient.Proofs.Program.Heeding

/-!
# Traces

`p.Traces R s steps started q s'` says that `p`, begun at `s`, gets to `q` at `s'` by the steps
`steps` of its own, and that it has started the services `started` by then. What happens between its
steps is in `R`; what it starts goes on beside it, and is among what happens.

The steps of a program that follows a discipline lead from stage to stage (`Follows.traces`).
-/

namespace LspClient.Program

variable {σ α β γ : Type}

inductive Traces (R : σ → σ → Prop) (p : Program σ α) (s : σ) :
    List (σ × σ) → List (Program σ Bool) → Program σ α → σ → Prop
  | start : Traces R p s [] [] p s
  | others {steps : List (σ × σ)} {started : List (Program σ Bool)} {q : Program σ α} {s₁ s₂ : σ}
      (h : Traces R p s steps started q s₁) (hs : R s₁ s₂) : Traces R p s steps started q s₂
  | step {steps : List (σ × σ)} {started new : List (Program σ Bool)} {q q' : Program σ α}
      {s₁ s₂ : σ} (h : Traces R p s steps started q s₁) (hs : Step s₁ q s₂ q' new) :
      Traces R p s (steps ++ [(s₁, s₂)]) (started ++ new) q' s₂

variable {R : σ → σ → Prop} {s s' : σ} {steps : List (σ × σ)} {started : List (Program σ Bool)}

/-! ### Short programs -/

theorem Traces.pure_inv {a : α} {q : Program σ α}
    (h : (Pure.pure a : Program σ α).Traces R s steps started q s') :
    steps = [] ∧ started = [] ∧ q = Pure.pure a := by
  change (Program.done a).Traces R s steps started q s' at h
  induction h with
  | start => exact ⟨rfl, rfl, rfl⟩
  | others _ _ ih => exact ih
  | step _ hs ih =>
    obtain ⟨-, -, rfl⟩ := ih
    cases hs

/-- A program that begins with a step that is always possible has not begun, or has taken it. -/
theorem Traces.act_bind_inv {act : σ → β × σ} {k : β → Program σ α} {q : Program σ α}
    (h : (Program.act act >>= k).Traces R s steps started q s') :
    (steps = [] ∧ started = [] ∧ q = Program.act act >>= k) ∨
      ∃ s₁ rest, steps = (s₁, (act s₁).2) :: rest ∧
        (k (act s₁).1).Traces R (act s₁).2 rest started q s' := by
  induction h with
  | start => exact .inl ⟨rfl, rfl, rfl⟩
  | others _ hs ih =>
    rcases ih with hwaits | ⟨s₁, rest, hsteps, hrest⟩
    · exact .inl hwaits
    · exact .inr ⟨s₁, rest, hsteps, hrest.others hs⟩
  | @step steps started new q q' s₁ s₂ _ hs ih =>
    rcases ih with ⟨rfl, rfl, rfl⟩ | ⟨s₀, rest, rfl, hrest⟩
    · obtain ⟨rfl, rfl, rfl⟩ := step_act_bind.1 hs
      exact .inr ⟨s₁, [], rfl, .start⟩
    · exact .inr ⟨s₀, _, rfl, hrest.step hs⟩

/-- A program that begins with the start of a service has not begun, or has started it. -/
theorem Traces.start_bind_inv {service : Program σ Bool} {k : Unit → Program σ α}
    {q : Program σ α} (h : (Program.start service >>= k).Traces R s steps started q s') :
    (steps = [] ∧ started = [] ∧ q = Program.start service >>= k) ∨
      ∃ s₁ rest new, steps = (s₁, s₁) :: rest ∧ started = service :: new ∧
        (k ()).Traces R s₁ rest new q s' := by
  induction h with
  | start => exact .inl ⟨rfl, rfl, rfl⟩
  | others _ hs ih =>
    rcases ih with hwaits | ⟨s₁, rest, new, hsteps, hstarted, hrest⟩
    · exact .inl hwaits
    · exact .inr ⟨s₁, rest, new, hsteps, hstarted, hrest.others hs⟩
  | @step steps started new q q' s₁ s₂ _ hs ih =>
    rcases ih with ⟨rfl, rfl, rfl⟩ | ⟨s₀, rest, new', rfl, rfl, hrest⟩
    · cases hs with
      | spawn => exact .inr ⟨s₁, [], [], rfl, rfl, .start⟩
    · exact .inr ⟨s₀, _, _, rfl, rfl, hrest.step hs⟩

/-! ### Programs that start nothing -/

def StartsNone : {α : Type} → Program σ α → Prop
  | _, .done _ => True
  | _, .await _ _ next => ∀ b, StartsNone (next b)
  | _, .spawn _ _ => False
  | _, .both p q next => StartsNone p ∧ StartsNone q ∧ ∀ b c, StartsNone (next b c)

theorem StartsNone.pure (a : α) : StartsNone (Pure.pure a : Program σ α) := trivial

theorem StartsNone.await {deadline : Option Nat} {step : σ → Option (α × σ)} :
    StartsNone (.await deadline step .done) := fun _ => trivial

theorem StartsNone.bind {p : Program σ α} {k : α → Program σ β} (hp : StartsNone p)
    (hk : ∀ a, StartsNone (k a)) : StartsNone (p >>= k) := by
  change StartsNone (p.bind k)
  induction p with
  | done a => exact hk a
  | await deadline step next ih => exact fun b => ih b (hp b) hk
  | spawn service next => exact hp.elim
  | both p q next _ _ ih => exact ⟨hp.1, hp.2.1, fun b c => ih b c (hp.2.2 b c) hk⟩

theorem StartsNone.step {p p' : Program σ α} (hp : StartsNone p) (h : Step s p s' p' started) :
    started = [] ∧ StartsNone p' := by
  induction h with
  | await => exact ⟨rfl, hp _⟩
  | spawn => exact hp.elim
  | left _ ih =>
    obtain ⟨hnone, hp'⟩ := ih hp.1
    exact ⟨hnone, hp', hp.2⟩
  | right _ ih =>
    obtain ⟨hnone, hq'⟩ := ih hp.2.1
    exact ⟨hnone, hp.1, hq', hp.2.2⟩
  | join => exact ⟨rfl, hp.2.2 _ _⟩

theorem StartsNone.traces {p q : Program σ α} (hp : StartsNone p)
    (h : p.Traces R s steps started q s') : started = [] ∧ StartsNone q := by
  induction h with
  | start => exact ⟨rfl, hp⟩
  | others _ _ ih => exact ih
  | step _ hs ih =>
    obtain ⟨rfl, hq⟩ := ih
    obtain ⟨rfl, hq'⟩ := hq.step hs
    exact ⟨rfl, hq'⟩

/-! ### Stages -/

/-- The steps lead from one stage of a discipline to another. -/
inductive Passes (D : Discipline σ γ) (g : γ) : List (σ × σ) → γ → Prop
  | nil : Passes D g [] g
  | snoc {steps : List (σ × σ)} {g₁ g₂ : γ} {s s' : σ} (h : Passes D g steps g₁)
      (hs : D.Acts g₁ s s' g₂) : Passes D g (steps ++ [(s, s')]) g₂

/-- Where nothing is handed over to anybody, a program that follows a discipline has come to a
stage by steps that are allowed, and goes on from there. -/
theorem Follows.traces {D : Discipline σ γ} {g : γ} {p q : Program σ α} {Q : γ → α → Prop}
    (hD : ∀ g body i g', ¬ D.Hands g body i g') (hR : ∀ s s', D.Inv s → R s s' → D.Inv s')
    (hp : Follows D p g Q) (hinv : D.Inv s) (h : p.Traces R s steps started q s') :
    ∃ g', Passes D g steps g' ∧ Follows D q g' Q ∧ D.Inv s' := by
  induction h with
  | start => exact ⟨g, .nil, hp, hinv⟩
  | others _ hs ih =>
    obtain ⟨g', hpasses, hq, hinv'⟩ := ih
    exact ⟨g', hpasses, hq, hR _ _ hinv' hs⟩
  | step _ hs ih =>
    obtain ⟨g₁, hpasses, hq, hinv'⟩ := ih
    obtain ⟨g₂, hgoes, hq'⟩ := hq.step hs hinv'
    cases hgoes with
    | acts hacts => exact ⟨g₂, hpasses.snoc hacts, hq', D.inv_of_acts hinv' hacts⟩
    | hands _ hhands => exact absurd hhands (hD _ _ _ _)

end LspClient.Program
