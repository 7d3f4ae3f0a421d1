import LspClient.Program.Basic
import LspClient.Proofs.Program.Steps
import Mathlib.Data.List.Forall2

/-!
# How programs and scripts end

`p.Ends R s s' a` says that `p`, begun at `s`, can end at `s'` with `a`, when what happens between
its steps is in `R`. What it starts goes on beside it, and is among what happens.

A run of a script is told by its log, which has every act with its answer and the state it left
(`Script.Runs`). Running a script comes to an end only by such runs (`Script.runs_of_ends`).
-/

namespace LspClient

variable {σ α β : Type}

namespace Program

inductive Ends (R : σ → σ → Prop) : Program σ α → σ → σ → α → Prop
  | done {s : σ} {a : α} : Ends R (.done a) s s a
  | step {s s₁ s₂ s' : σ} {p p' : Program σ α} {started : List (Program σ Bool)} {a : α}
      (others : R s s₁) (h : Step s₁ p s₂ p' started) (rest : Ends R p' s₂ s' a) :
      Ends R p s s' a

theorem step_bind {s s' : σ} {p : Program σ α} {k : α → Program σ β} {q : Program σ β}
    {started : List (Program σ Bool)} (h : Step s (p.bind k) s' q started) :
    (∃ a, p = .done a ∧ Step s (k a) s' q started) ∨
      ∃ p', q = p'.bind k ∧ Step s p s' p' started := by
  cases p with
  | done a => exact .inl ⟨a, rfl, h⟩
  | await deadline step next =>
    cases h with
    | await h => exact .inr ⟨_, rfl, .await h⟩
  | spawn service next =>
    cases h with
    | spawn => exact .inr ⟨next, rfl, .spawn⟩
  | both p q next =>
    cases h with
    | left h => exact .inr ⟨.both _ q next, rfl, .left h⟩
    | right h => exact .inr ⟨.both p _ next, rfl, .right h⟩
    | join => exact .inr ⟨_, rfl, .join⟩

variable {R : σ → σ → Prop} {s s' : σ}

theorem Ends.bind_inv {p : Program σ α} {k : α → Program σ β} {b : β}
    (h : (p.bind k).Ends R s s' b) : ∃ s₁ a, p.Ends R s s₁ a ∧ (k a).Ends R s₁ s' b := by
  generalize hq : p.bind k = q at h
  induction h generalizing p with
  | done =>
    cases p with
    | done a =>
      have hk : k a = .done _ := hq
      exact ⟨_, a, .done, hk ▸ .done⟩
    | await => cases hq
    | spawn => cases hq
    | both => cases hq
  | step others h rest ih =>
    subst hq
    rcases step_bind h with ⟨a, rfl, hstep⟩ | ⟨p', rfl, hstep⟩
    · exact ⟨_, a, .done, .step others hstep rest⟩
    · obtain ⟨s₁, a, hp, hk⟩ := ih rfl
      exact ⟨s₁, a, .step others hstep hp, hk⟩

theorem Ends.bind {s₁ : σ} {p : Program σ α} {k : α → Program σ β} {a : α} {b : β}
    (hp : p.Ends R s s₁ a) (hk : (k a).Ends R s₁ s' b) : (p >>= k).Ends R s s' b := by
  induction hp with
  | done => exact hk
  | step others h _ ih => exact .step others h.bind (ih hk)

theorem Ends.pure_inv {a b : α} (h : (Pure.pure a : Program σ α).Ends R s s' b) :
    s' = s ∧ b = a := by
  change (Program.done a).Ends R s s' b at h
  cases h with
  | done => exact ⟨rfl, rfl⟩
  | step _ h _ => cases h

theorem Ends.await_inv {deadline : Option Nat} {step : σ → Option (α × σ)} {a : α}
    (h : (Program.await deadline step .done).Ends R s s' a) :
    ∃ s₁, R s s₁ ∧ step s₁ = some (a, s') := by
  cases h with
  | step others h rest =>
    cases h with
    | await h =>
      obtain ⟨rfl, rfl⟩ := rest.pure_inv
      exact ⟨_, others, h⟩

theorem Ends.act_inv {step : σ → α × σ} {a : α} (h : (act step).Ends R s s' a) :
    ∃ s₁, R s s₁ ∧ step s₁ = (a, s') := by
  obtain ⟨s₁, others, h⟩ := h.await_inv
  exact ⟨s₁, others, Option.some.inj h⟩

theorem Ends.look_inv {view : σ → α} {a : α} (h : (look view).Ends R s s' a) :
    R s s' ∧ a = view s' := by
  obtain ⟨s₁, others, h⟩ := h.act_inv
  cases h
  exact ⟨others, rfl⟩

/-- Take a program to its end in at most `n` steps, with `others` before each. -/
def playOut (others : σ → σ) : Nat → σ → Program σ α → Option (σ × α)
  | 0, s, p => p.result?.map fun a => (s, a)
  | n + 1, s, p =>
    match p.result? with
    | some a => some (s, a)
    | none => (p.step? (others s)).bind fun (s', p', _) => playOut others n s' p'

theorem ends_of_playOut {others : σ → σ} (hR : ∀ s, R s (others s)) {n : Nat} {p : Program σ α}
    {a : α} (h : playOut others n s p = some (s', a)) : p.Ends R s s' a := by
  induction n generalizing s p with
  | zero =>
    obtain ⟨b, hb, heq⟩ := Option.map_eq_some_iff.1 h
    cases heq
    exact eq_done_of_result? hb ▸ .done
  | succ n ih =>
    rw [playOut] at h
    split at h
    · next b hb =>
      cases h
      exact eq_done_of_result? hb ▸ .done
    · obtain ⟨⟨s₁, p', started⟩, hstep, hrest⟩ := Option.bind_eq_some_iff.1 h
      exact .step (hR s) (step_of_step? hstep) (ih hrest)

/-! ### What is true of every result, whatever the steps give -/

def Results : {α : Type} → (α → Prop) → Program σ α → Prop
  | _, Q, .done a => Q a
  | _, Q, .await _ _ next => ∀ b, Results Q (next b)
  | _, Q, .spawn _ next => Results Q next
  | _, Q, .both _ _ next => ∀ b c, Results Q (next b c)

theorem Results.mono {Q Q' : α → Prop} {p : Program σ α} (hQ : ∀ a, Q a → Q' a)
    (hp : p.Results Q) : p.Results Q' := by
  induction p with
  | done a => exact hQ a hp
  | await deadline step next ih => exact fun b => ih b hQ (hp b)
  | spawn service next _ ih => exact ih hQ hp
  | both p q next _ _ ih => exact fun b c => ih b c hQ (hp b c)

theorem Results.of_forall {Q : α → Prop} (h : ∀ a, Q a) (p : Program σ α) : p.Results Q := by
  induction p with
  | done a => exact h a
  | await deadline step next ih => exact fun b => ih b h
  | spawn service next _ ih => exact ih h
  | both p q next _ _ ih => exact fun b c => ih b c h

theorem Results.pure {Q : α → Prop} {a : α} (h : Q a) : (Pure.pure a : Program σ α).Results Q := h

theorem Results.bind {P : α → Prop} {Q : β → Prop} {p : Program σ α} {k : α → Program σ β}
    (hp : p.Results P) (hk : ∀ a, P a → (k a).Results Q) : (p >>= k).Results Q := by
  change (p.bind k).Results Q
  induction p with
  | done a => exact hk a hp
  | await deadline step next ih => exact fun b => ih b (hp b) hk
  | spawn service next _ ih => exact ih hp hk
  | both p q next _ _ ih => exact fun b c => ih b c (hp b c) hk

/-- What follows a program decides over the result, if it does so for every result of the first. -/
theorem Results.then {Q : β → Prop} {p : Program σ α} {k : α → Program σ β}
    (hk : ∀ a, (k a).Results Q) : (p >>= k).Results Q :=
  (Results.of_forall (fun _ => trivial) p).bind fun a _ => hk a

theorem Step.results {p p' : Program σ α} {started : List (Program σ Bool)} {Q : α → Prop}
    (h : Step s p s' p' started) (hp : p.Results Q) : p'.Results Q := by
  cases h with
  | await => exact hp _
  | spawn => exact hp
  | left => exact hp
  | right => exact hp
  | join => exact hp _ _

theorem Results.of_ends {p : Program σ α} {Q : α → Prop} {a : α} (hp : p.Results Q)
    (h : p.Ends R s s' a) : Q a := by
  induction h with
  | done => exact hp
  | step _ hstep _ ih => exact ih (hstep.results hp)

/-! ### What a program can give -/

/-- The program can end with `a`, if only enough happens between its steps. -/
def Gives (p : Program σ α) (a : α) : Prop := ∃ s s', p.Ends (fun _ _ => True) s s' a

theorem Ends.mono {R' : σ → σ → Prop} (hR : ∀ s s', R s s' → R' s s') {p : Program σ α} {a : α}
    (h : p.Ends R s s' a) : p.Ends R' s s' a := by
  induction h with
  | done => exact .done
  | step others hstep _ ih => exact .step (hR _ _ others) hstep ih

theorem Ends.gives {p : Program σ α} {a : α} (h : p.Ends R s s' a) : p.Gives a :=
  ⟨s, s', h.mono fun _ _ _ => trivial⟩

theorem Gives.bind_inv {p : Program σ α} {k : α → Program σ β} {b : β} (h : (p >>= k).Gives b) :
    ∃ a, p.Gives a ∧ (k a).Gives b := by
  obtain ⟨s, s', h⟩ := h
  obtain ⟨s₁, a, hp, hk⟩ := h.bind_inv
  exact ⟨a, ⟨s, s₁, hp⟩, ⟨s₁, s', hk⟩⟩

theorem Gives.pure_inv {a b : α} (h : (Pure.pure a : Program σ α).Gives b) : b = a := by
  obtain ⟨s, s', h⟩ := h
  exact h.pure_inv.2

theorem Gives.step {p p' : Program σ α} {started : List (Program σ Bool)} {a : α}
    (hstep : Step s p s' p' started) (h : p'.Gives a) : p.Gives a := by
  obtain ⟨s₁, s₂, h⟩ := h
  cases h with
  | done => exact ⟨s, _, .step trivial hstep .done⟩
  | step _ hnext hrest => exact ⟨s, _, .step trivial hstep (.step trivial hnext hrest)⟩

/-- What two programs come to side by side each of them can give. -/
theorem Ends.both_inv {γ : Type} {p : Program σ β} {q : Program σ γ}
    {next : β → γ → Program σ α} {a : α} (h : (Program.both p q next).Ends R s s' a) :
    ∃ b c, p.Gives b ∧ q.Gives c ∧ (next b c).Gives a := by
  generalize hr : Program.both p q next = r at h
  induction h generalizing p q with
  | done => cases hr
  | step _ hstep rest ih =>
    subst hr
    cases hstep with
    | left hstep =>
      obtain ⟨b, c, hb, hc, hnext⟩ := ih rfl
      exact ⟨b, c, hb.step hstep, hc, hnext⟩
    | right hstep =>
      obtain ⟨b, c, hb, hc, hnext⟩ := ih rfl
      exact ⟨b, c, hb, hc.step hstep, hnext⟩
    | join => exact ⟨_, _, ⟨s, s, .done⟩, ⟨s, s, .done⟩, rest.gives⟩

theorem Gives.all_inv {ps : List (Program σ α)} {as : List α} (h : (all ps).Gives as) :
    List.Forall₂ Gives ps as := by
  induction ps generalizing as with
  | nil =>
    obtain rfl : as = [] := h.pure_inv
    exact .nil
  | cons p ps ih =>
    obtain ⟨s, s', h⟩ := h
    obtain ⟨b, bs, hp, hps, hnext⟩ := h.both_inv
    obtain rfl : as = b :: bs := hnext.pure_inv
    exact .cons hp (ih hps)

end Program

namespace Script

variable {Act : Type} {Answer : Act → Type}

/-- An act that was performed, with its answer and the state it left. -/
structure Event (σ Act : Type) (Answer : Act → Type) where
  act : Act
  answer : Answer act
  after : σ

variable {performed : (o : Act) → Program σ (Answer o)} {R : σ → σ → Prop} {s s' : σ}
  {log : List (Event σ Act Answer)}

inductive Runs (performed : (o : Act) → Program σ (Answer o)) (R : σ → σ → Prop) :
    Script σ Act Answer α → σ → List (Event σ Act Answer) → σ → α → Prop
  | done {s : σ} {a : α} : Runs performed R (.done a) s [] s a
  | work {β : Type} {p : Program σ β} {next : β → Script σ Act Answer α} {s s₁ s' : σ} {b : β}
      {log : List (Event σ Act Answer)} {a : α} (h : p.Ends R s s₁ b)
      (rest : Runs performed R (next b) s₁ log s' a) : Runs performed R (.work p next) s log s' a
  | act {o : Act} {next : Answer o → Script σ Act Answer α} {s s₁ s' : σ} {b : Answer o}
      {log : List (Event σ Act Answer)} {a : α} (h : (performed o).Ends R s s₁ b)
      (rest : Runs performed R (next b) s₁ log s' a) :
      Runs performed R (.act o next) s (⟨o, b, s₁⟩ :: log) s' a

theorem runs_of_ends {p : Script σ Act Answer α} {a : α}
    (h : (p.run performed).Ends R s s' a) : ∃ log, p.Runs performed R s log s' a := by
  induction p generalizing s with
  | done a =>
    obtain ⟨rfl, rfl⟩ := Program.Ends.pure_inv h
    exact ⟨[], .done⟩
  | work p next ih =>
    obtain ⟨s₁, b, hp, hnext⟩ := h.bind_inv
    obtain ⟨log, hlog⟩ := ih b hnext
    exact ⟨log, .work hp hlog⟩
  | act o next ih =>
    obtain ⟨s₁, b, ho, hnext⟩ := h.bind_inv
    obtain ⟨log, hlog⟩ := ih b hnext
    exact ⟨_, .act ho hlog⟩

theorem Runs.bind_inv {p : Script σ Act Answer α} {k : α → Script σ Act Answer β} {b : β}
    (h : (p >>= k).Runs performed R s log s' b) :
    ∃ s₁ a log₁ log₂, log = log₁ ++ log₂ ∧ p.Runs performed R s log₁ s₁ a ∧
      (k a).Runs performed R s₁ log₂ s' b := by
  change (p.bind k).Runs performed R s log s' b at h
  induction p generalizing s log with
  | done a => exact ⟨s, a, [], log, rfl, .done, h⟩
  | work p next ih =>
    cases h with
    | work hp rest =>
      obtain ⟨s₁, a, log₁, log₂, hlog, hfirst, hthen⟩ := ih _ rest
      exact ⟨s₁, a, log₁, log₂, hlog, .work hp hfirst, hthen⟩
  | act o next ih =>
    cases h with
    | act ho rest =>
      obtain ⟨s₁, a, log₁, log₂, rfl, hfirst, hthen⟩ := ih _ rest
      exact ⟨s₁, a, _, log₂, rfl, .act ho hfirst, hthen⟩

theorem Runs.pure_inv {a b : α}
    (h : (Pure.pure a : Script σ Act Answer α).Runs performed R s log s' b) :
    log = [] ∧ s' = s ∧ b = a := by
  cases h
  exact ⟨rfl, rfl, rfl⟩

theorem Runs.lift_bind_inv {p : Program σ α} {k : α → Script σ Act Answer β} {b : β}
    (h : (lift p >>= k).Runs performed R s log s' b) :
    ∃ s₁ a, p.Ends R s s₁ a ∧ (k a).Runs performed R s₁ log s' b := by
  cases h with
  | work hp rest => exact ⟨_, _, hp, rest⟩

theorem Runs.perform_bind_inv {o : Act} {k : Answer o → Script σ Act Answer β} {b : β}
    (h : (perform o >>= k).Runs performed R s log s' b) :
    ∃ s₁ a log', log = ⟨o, a, s₁⟩ :: log' ∧ (performed o).Ends R s s₁ a ∧
      (k a).Runs performed R s₁ log' s' b := by
  cases h with
  | act ho rest => exact ⟨_, _, _, rfl, ho, rest⟩

/-- What is in the log was performed. -/
theorem Runs.ends_of_mem {p : Script σ Act Answer α} {a : α} {e : Event σ Act Answer}
    (h : p.Runs performed R s log s' a) (he : e ∈ log) :
    ∃ s₁, (performed e.act).Ends R s₁ e.after e.answer := by
  induction h with
  | done => cases he
  | work _ _ ih => exact ih he
  | act ho _ ih =>
    rcases List.mem_cons.1 he with rfl | he
    · exact ⟨_, ho⟩
    · exact ih he

/-! ### What is true of every run, whatever the answers are -/

def Always (Q : List (Event σ Act Answer) → α → Prop) : Script σ Act Answer α → Prop
  | .done a => Q [] a
  | .work p next => p.Results fun b => (next b).Always Q
  | .act o next => ∀ b s, (next b).Always fun log => Q (⟨o, b, s⟩ :: log)

section Always

variable {Q : List (Event σ Act Answer) → α → Prop} {p : Script σ Act Answer α}

theorem Runs.always {a : α} (h : p.Runs performed R s log s' a) (hp : p.Always Q) : Q log a := by
  induction h generalizing Q with
  | done => exact hp
  | work h _ ih => exact ih (Program.Results.of_ends hp h)
  | act _ _ ih => exact ih (hp _ _)

theorem Always.pure {a : α} (h : Q [] a) : (Pure.pure a : Script σ Act Answer α).Always Q := h

theorem Always.bind {k : α → Script σ Act Answer β} {Q' : List (Event σ Act Answer) → β → Prop}
    (hp : p.Always Q) (hk : ∀ log a, Q log a → (k a).Always fun log' b => Q' (log ++ log') b) :
    (p >>= k).Always Q' := by
  change (p.bind k).Always Q'
  induction p generalizing Q Q' with
  | done a => exact hk [] a hp
  | work p next ih => exact Program.Results.mono (fun b hb => ih b hb hk) hp
  | act o next ih => exact fun b s => ih b (hp b s) fun log a h => hk _ a h

/-- Work does not show in the log. -/
theorem Always.lift_bind {P : β → Prop} {q : Program σ β} {k : β → Script σ Act Answer α}
    (hq : q.Results P) (hk : ∀ b, P b → (k b).Always Q) : (Script.lift q >>= k).Always Q :=
  Program.Results.mono hk hq

theorem Always.work {q : Program σ β} {k : β → Script σ Act Answer α}
    (hk : ∀ b, (k b).Always Q) : (Script.lift q >>= k).Always Q :=
  Program.Results.of_forall hk q

theorem Always.perform_bind {o : Act} {k : Answer o → Script σ Act Answer α}
    (hk : ∀ b s, (k b).Always fun log => Q (⟨o, b, s⟩ :: log)) : (perform o >>= k).Always Q := hk

end Always

end Script

end LspClient
