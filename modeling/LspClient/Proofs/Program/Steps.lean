import LspClient.Program.Basic

/-!
# Steps of programs

`Step s p s' p' started` says that `p` can take a step at the state `s` which leads to `s'`, goes on
as `p'`, and starts services. What a program does is said by two kinds of property, both by
recursion on the program.

`Keeps G p`: every step of `p`, and of what it starts, is in `G`.

`Follows D p g Q`: `p` follows the discipline `D` from the stage `g` on, and ends at a stage with a
result in `Q`. A discipline says which steps one may take at a stage, and the stage one is at then.
The stages are nowhere in the state; they are what the others may rely on. A service begins idle,
unless the one who starts it hands something over to it, which the discipline has to allow.
-/

namespace LspClient.Program

variable {σ α β γ : Type}

inductive Step : {α : Type} → σ → Program σ α → σ → Program σ α → List (Program σ Bool) → Prop
  | await {α β : Type} {deadline : Option Nat} {step : σ → Option (β × σ)} {next : β → Program σ α}
      {s s' : σ} {b : β} (h : step s = some (b, s')) :
      Step s (.await deadline step next) s' (next b) []
  | spawn {α : Type} {service : Program σ Bool} {next : Program σ α} {s : σ} :
      Step s (.spawn service next) s next [service]
  | left {α β γ : Type} {p p' : Program σ β} {q : Program σ γ} {next : β → γ → Program σ α}
      {s s' : σ} {started : List (Program σ Bool)} (h : Step s p s' p' started) :
      Step s (.both p q next) s' (.both p' q next) started
  | right {α β γ : Type} {p : Program σ β} {q q' : Program σ γ} {next : β → γ → Program σ α}
      {s s' : σ} {started : List (Program σ Bool)} (h : Step s q s' q' started) :
      Step s (.both p q next) s' (.both p q' next) started
  | join {α β γ : Type} {b : β} {c : γ} {next : β → γ → Program σ α} {s : σ} :
      Step s (.both (.done b) (.done c) next) s (next b c) []

theorem Step.bind {s s' : σ} {p p' : Program σ α} {k : α → Program σ β}
    {started : List (Program σ Bool)} (h : Step s p s' p' started) :
    Step s (p >>= k) s' (p' >>= k) started := by
  cases h with
  | await h => exact .await h
  | spawn => exact .spawn
  | left h => exact .left h
  | right h => exact .right h
  | join => exact .join

/-- The result of a program that is done. -/
def result? : {α : Type} → Program σ α → Option α
  | _, .done a => some a
  | _, _ => none

/-- A step that a program can take, one of the left before one of the right. -/
def step? (s : σ) : {α : Type} → Program σ α → Option (σ × Program σ α × List (Program σ Bool))
  | _, .done _ => none
  | _, .await _ step next => (step s).map fun (b, s') => (s', next b, [])
  | _, .spawn service next => some (s, next, [service])
  | _, .both p q next =>
    match p.step? s, q.step? s, p.result?, q.result? with
    | some (s', p', started), _, _, _ => some (s', .both p' q next, started)
    | none, some (s', q', started), _, _ => some (s', .both p q' next, started)
    | none, none, some b, some c => some (s, next b c, [])
    | _, _, _, _ => none

theorem eq_done_of_result? {p : Program σ α} {a : α} (h : p.result? = some a) : p = .done a := by
  cases p <;> cases h
  rfl

theorem step_of_step? {s s' : σ} {p p' : Program σ α} {started : List (Program σ Bool)}
    (h : p.step? s = some (s', p', started)) : Step s p s' p' started := by
  induction p generalizing s' with
  | done a => cases h
  | await deadline step next ih =>
    obtain ⟨⟨b, s''⟩, hs, heq⟩ := Option.map_eq_some_iff.1 h
    cases heq
    exact .await hs
  | spawn service next =>
    cases h
    exact .spawn
  -- of two parts the left one moves if it can
  | both p q next ihp ihq =>
    rw [step?] at h
    split at h
    · next hp =>
      cases h
      exact .left (ihp hp)
    · next hq =>
      cases h
      exact .right (ihq hq)
    · next hb hc =>
      cases h
      rw [eq_done_of_result? hb, eq_done_of_result? hc]
      exact .join
    · cases h

/-- A program that begins with a wait takes the step that it waits for. -/
theorem step_await_bind {deadline : Option Nat} {step : σ → Option (β × σ)}
    {k : β → Program σ α} {s s' : σ} {p : Program σ α} {started : List (Program σ Bool)} :
    Step s (Program.await deadline step .done >>= k) s' p started ↔
      ∃ b, step s = some (b, s') ∧ p = k b ∧ started = [] := by
  constructor
  · intro h
    cases h with
    | await h => exact ⟨_, h, rfl, rfl⟩
  · rintro ⟨b, h, rfl, rfl⟩
    change Step s (.await deadline step fun b => k b) s' (k b) []
    exact .await h

/-- A step that is always possible is the only one. -/
theorem step_always_bind {deadline : Option Nat} {act : σ → β × σ} {k : β → Program σ α}
    {s s' : σ} {p : Program σ α} {started : List (Program σ Bool)} :
    Step s (Program.await deadline (fun s => some (act s)) .done >>= k) s' p started ↔
      s' = (act s).2 ∧ p = k (act s).1 ∧ started = [] := by
  refine step_await_bind.trans ⟨?_, ?_⟩
  · rintro ⟨b, h, rfl, rfl⟩
    rw [Option.some.inj h]
    exact ⟨rfl, rfl, rfl⟩
  · rintro ⟨rfl, rfl, rfl⟩
    exact ⟨(act s).1, rfl, rfl, rfl⟩

theorem step_act_bind {act : σ → β × σ} {k : β → Program σ α} {s s' : σ} {p : Program σ α}
    {started : List (Program σ Bool)} : Step s (Program.act act >>= k) s' p started ↔
      s' = (act s).2 ∧ p = k (act s).1 ∧ started = [] := step_always_bind

theorem step_locked_bind {act : σ → β × σ} {k : β → Program σ α} {s s' : σ} {p : Program σ α}
    {started : List (Program σ Bool)} : Step s (Program.locked act >>= k) s' p started ↔
      s' = (act s).2 ∧ p = k (act s).1 ∧ started = [] := step_always_bind

/-! ### Programs all of whose steps are alike -/

def Keeps (G : σ → σ → Prop) : {α : Type} → Program σ α → Prop
  | _, .done _ => True
  | _, .await _ step next => ∀ s b s', step s = some (b, s') → G s s' ∧ Keeps G (next b)
  | _, .spawn service next => Keeps G service ∧ Keeps G next
  | _, .both p q next => Keeps G p ∧ Keeps G q ∧ ∀ b c, Keeps G (next b c)

section Keeps

variable {G : σ → σ → Prop}

theorem Keeps.pure (a : α) : Keeps G (Pure.pure a : Program σ α) := trivial

theorem Keeps.bind {p : Program σ α} {k : α → Program σ β} (hp : Keeps G p)
    (hk : ∀ a, Keeps G (k a)) : Keeps G (p >>= k) := by
  change Keeps G (p.bind k)
  induction p with
  | done a => exact hk a
  | await deadline step next ih =>
    intro s b s' h
    obtain ⟨hG, hnext⟩ := hp s b s' h
    exact ⟨hG, ih b hnext hk⟩
  | spawn service next _ ih => exact ⟨hp.1, ih hp.2 hk⟩
  | both p q next _ _ ih => exact ⟨hp.1, hp.2.1, fun b c => ih b c (hp.2.2 b c) hk⟩

theorem Keeps.await {deadline : Option Nat} {step : σ → Option (α × σ)}
    (h : ∀ s a s', step s = some (a, s') → G s s') : Keeps G (.await deadline step .done) :=
  fun s a s' hs => ⟨h s a s' hs, trivial⟩

theorem Keeps.always {deadline : Option Nat} {step : σ → α × σ} (h : ∀ s, G s (step s).2) :
    Keeps G (.await deadline (fun s => some (step s)) .done) :=
  Keeps.await fun s a s' hs => by
    have hs' : step s = (a, s') := Option.some.inj hs
    have hG := h s
    rwa [hs'] at hG

theorem Keeps.act {step : σ → α × σ} (h : ∀ s, G s (step s).2) : Keeps G (act step) :=
  Keeps.always h

theorem Keeps.locked {step : σ → α × σ} (h : ∀ s, G s (step s).2) : Keeps G (locked step) :=
  Keeps.always h

theorem Keeps.update {f : σ → σ} (h : ∀ s, G s (f s)) : Keeps G (update f) := Keeps.act h

theorem Keeps.look {view : σ → α} (h : ∀ s, G s s) : Keeps G (look view) := Keeps.act h

theorem Keeps.mono {G' : σ → σ → Prop} {p : Program σ α} (hG : ∀ s s', G s s' → G' s s')
    (hp : Keeps G p) : Keeps G' p := by
  induction p with
  | done a => trivial
  | await deadline step next ih =>
    intro s b s' h
    obtain ⟨hs, hnext⟩ := hp s b s' h
    exact ⟨hG s s' hs, ih b hnext⟩
  | spawn service next ihs ih => exact ⟨ihs hp.1, ih hp.2⟩
  | both p q next ihp ihq ih => exact ⟨ihp hp.1, ihq hp.2.1, fun b c => ih b c (hp.2.2 b c)⟩

theorem Keeps.step {s s' : σ} {p p' : Program σ α} {started : List (Program σ Bool)}
    (hG : ∀ s, G s s) (h : Step s p s' p' started) (hp : Keeps G p) :
    G s s' ∧ Keeps G p' ∧ ∀ q ∈ started, Keeps G q := by
  induction h with
  | await h =>
    obtain ⟨hs, hnext⟩ := hp _ _ _ h
    exact ⟨hs, hnext, by simp⟩
  | spawn => exact ⟨hG _, hp.2, by simpa using hp.1⟩
  | left _ ih =>
    obtain ⟨hs, hp', hstarted⟩ := ih hp.1
    exact ⟨hs, ⟨hp', hp.2⟩, hstarted⟩
  | right _ ih =>
    obtain ⟨hs, hq', hstarted⟩ := ih hp.2.1
    exact ⟨hs, ⟨hp.1, hq', hp.2.2⟩, hstarted⟩
  | join => exact ⟨hG _, hp.2.2 _ _, by simp⟩

theorem Keeps.start {service : Program σ Bool} (h : Keeps G service) : Keeps G (start service) :=
  ⟨h, trivial⟩

theorem Keeps.once {p : Program σ Unit} (h : Keeps G p) : Keeps G (once p) :=
  h.bind fun _ => trivial

theorem Keeps.fork {p : Program σ Unit} (h : Keeps G p) : Keeps G (fork p) := h.once.start

theorem Keeps.all (ps : List (Program σ α)) (h : ∀ p ∈ ps, Keeps G p) : Keeps G (all ps) := by
  induction ps with
  | nil => trivial
  | cons p ps ih =>
    exact ⟨h p (List.mem_cons_self ..), ih fun q hq => h q (List.mem_cons_of_mem p hq),
      fun _ _ => trivial⟩

theorem Keeps.abandonWhen {p : Program σ α} (hG : ∀ s, G s s) (stop : σ → Bool)
    (h : Keeps G p) : Keeps G (p.abandonWhen stop) := by
  induction p with
  | done a =>
    rw [Program.abandonWhen]
    trivial
  -- the wait that may be abandoned is the wait itself, or ends without a change
  | await deadline step next ih =>
    rw [Program.abandonWhen]
    intro s b s' hs
    simp only at hs ⊢
    split at hs
    · cases hs
      exact ⟨hG s, trivial⟩
    · obtain ⟨⟨b', s''⟩, hstep, heq⟩ := Option.map_eq_some_iff.1 hs
      cases heq
      exact ⟨(h s b' s'' hstep).1, ih b' (h s b' s'' hstep).2⟩
  | spawn service next _ ih =>
    rw [Program.abandonWhen]
    exact ⟨h.1, ih h.2⟩
  | both p q next ihp ihq ih =>
    rw [Program.abandonWhen]
    refine ⟨ihp h.1, ihq h.2.1, fun b c => ?_⟩
    match b, c with
    | some b, some c => exact ih b c (h.2.2 b c)
    | none, _ => trivial
    | some _, none => trivial

end Keeps

/-! ### Disciplines -/

/-- What one may do at a stage. `Inv` is what every step may rely on and has to keep. -/
structure Discipline (σ γ : Type) where
  Inv : σ → Prop
  Acts : γ → σ → σ → γ → Prop
  /-- The stage of one who has not done anything. -/
  idle : γ
  /-- At the first stage one may start the service at the second, and go on from the third. -/
  Hands : γ → Program σ Bool → γ → γ → Prop := fun _ _ _ _ => False
  /-- Where a service may end. -/
  Ends : γ → Prop := fun _ => True
  inv_of_acts : ∀ {g g' : γ} {s s' : σ}, Inv s → Acts g s s' g' → Inv s'
  acts_self : ∀ {g : γ} {s : σ}, Inv s → Acts g s s g
  ends_idle : Ends idle := by trivial

namespace Discipline

variable (D : Discipline σ γ)

/-- A step that one may take at any stage, and stay there. -/
def Neutral (s s' : σ) : Prop := D.Inv s → ∀ g, D.Acts g s s' g

theorem neutral_self (s : σ) : D.Neutral s s := fun h _ => D.acts_self h

/-- A service is begun anew as one that has not done anything. -/
def AtRest (g : γ) (again : Bool) : Prop := D.Ends g ∧ (again = true → g = D.idle)

/-- A service to which something was handed over is not begun anew. -/
def Over (g : γ) (again : Bool) : Prop := D.Ends g ∧ again = false

theorem atRest_idle (again : Bool) : D.AtRest D.idle again := ⟨D.ends_idle, fun _ => rfl⟩

end Discipline

def Follows (D : Discipline σ γ) : {α : Type} → Program σ α → γ → (γ → α → Prop) → Prop
  | _, .done a, g, Q => Q g a
  | _, .await _ step next, g, Q => ∀ s b s', D.Inv s → step s = some (b, s') →
      ∃ g', D.Acts g s s' g' ∧ Follows D (next b) g' Q
  | _, .spawn service next, g, Q =>
      (Follows D service D.idle D.AtRest ∧ Follows D next g Q) ∨
        ∃ i g', D.Hands g service i g' ∧ Follows D service i D.Over ∧ Follows D next g' Q
  | _, .both p q next, g, Q =>
      Keeps D.Neutral p ∧ Keeps D.Neutral q ∧ ∀ b c, Follows D (next b c) g Q

section Follows

variable {D : Discipline σ γ} {g : γ}

theorem Follows.pure {a : α} {Q : γ → α → Prop} (h : Q g a) :
    Follows D (Pure.pure a) g Q := h

theorem Follows.bind {p : Program σ α} {k : α → Program σ β} {Q : γ → α → Prop}
    {R : γ → β → Prop} (hp : Follows D p g Q) (hk : ∀ g' a, Q g' a → Follows D (k a) g' R) :
    Follows D (p >>= k) g R := by
  change Follows D (p.bind k) g R
  induction p generalizing g with
  | done a => exact hk g a hp
  | await deadline step next ih =>
    intro s b s' hinv h
    obtain ⟨g', hacts, hnext⟩ := hp s b s' hinv h
    exact ⟨g', hacts, ih b hnext hk⟩
  | spawn service next _ ih =>
    rcases hp with ⟨hservice, hnext⟩ | ⟨i, g', hhands, hservice, hnext⟩
    · exact .inl ⟨hservice, ih hnext hk⟩
    · exact .inr ⟨i, g', hhands, hservice, ih hnext hk⟩
  | both p q next _ _ ih => exact ⟨hp.1, hp.2.1, fun b c => ih b c (hp.2.2 b c) hk⟩

theorem Follows.mono {p : Program σ α} {Q Q' : γ → α → Prop} (hQ : ∀ g a, Q g a → Q' g a)
    (hp : Follows D p g Q) : Follows D p g Q' := by
  induction p generalizing g with
  | done a => exact hQ g a hp
  | await deadline step next ih =>
    intro s b s' hinv h
    obtain ⟨g', hacts, hnext⟩ := hp s b s' hinv h
    exact ⟨g', hacts, ih b hQ hnext⟩
  | spawn service next _ ih =>
    rcases hp with ⟨hservice, hnext⟩ | ⟨i, g', hhands, hservice, hnext⟩
    · exact .inl ⟨hservice, ih hQ hnext⟩
    · exact .inr ⟨i, g', hhands, hservice, ih hQ hnext⟩
  | both p q next _ _ ih => exact ⟨hp.1, hp.2.1, fun b c => ih b c hQ (hp.2.2 b c)⟩

theorem Follows.await {deadline : Option Nat} {step : σ → Option (α × σ)} {Q : γ → α → Prop}
    (h : ∀ s a s', D.Inv s → step s = some (a, s') → ∃ g', D.Acts g s s' g' ∧ Q g' a) :
    Follows D (.await deadline step .done) g Q := h

theorem Follows.always {deadline : Option Nat} {step : σ → α × σ} {Q : γ → α → Prop}
    (h : ∀ s, D.Inv s → ∃ g', D.Acts g s (step s).2 g' ∧ Q g' (step s).1) :
    Follows D (.await deadline (fun s => some (step s)) .done) g Q := by
  intro s a s' hinv hs
  have hs' : step s = (a, s') := Option.some.inj hs
  have hact := h s hinv
  rwa [hs'] at hact

theorem Follows.act {step : σ → α × σ} {Q : γ → α → Prop}
    (h : ∀ s, D.Inv s → ∃ g', D.Acts g s (step s).2 g' ∧ Q g' (step s).1) :
    Follows D (act step) g Q := Follows.always h

theorem Follows.locked {step : σ → α × σ} {Q : γ → α → Prop}
    (h : ∀ s, D.Inv s → ∃ g', D.Acts g s (step s).2 g' ∧ Q g' (step s).1) :
    Follows D (locked step) g Q := Follows.always h

theorem Follows.once {p : Program σ Unit} (hp : Follows D p g fun g' _ => D.Ends g') :
    Follows D (once p) g D.Over := by
  change Follows D (p >>= fun _ => Pure.pure false) g D.Over
  exact hp.bind fun g' _ hends => ⟨hends, rfl⟩

theorem Follows.atRest {p : Program σ Bool} (hp : Follows D p g D.Over) :
    Follows D p g D.AtRest :=
  hp.mono fun _ _ h => ⟨h.1, fun hagain => by cases h.2.symm.trans hagain⟩

/-- To start a service, and hand something over to it. -/
theorem Follows.hand {i g' : γ} {p : Program σ Unit} (h : D.Hands g (Program.once p) i g')
    (hp : Follows D p i fun g' _ => D.Ends g') : Follows D (fork p) g fun g'' _ => g'' = g' :=
  .inr ⟨i, g', h, hp.once, rfl⟩

theorem Follows.fork {p : Program σ Unit} (hp : Follows D p D.idle fun g' _ => D.Ends g') :
    Follows D (fork p) g fun g' _ => g' = g :=
  .inl ⟨hp.once.atRest, rfl⟩

/-- A program of neutral steps leaves one at the stage where one is. -/
theorem Keeps.follows {p : Program σ α} (hp : Keeps D.Neutral p) :
    Follows D p g fun g' _ => g' = g := by
  induction p generalizing g with
  | done a => rfl
  | await deadline step next ih =>
    intro s b s' hinv h
    obtain ⟨hs, hnext⟩ := hp s b s' h
    exact ⟨g, hs hinv g, ih b hnext⟩
  | spawn service next ihs ih =>
    refine .inl ⟨(ihs hp.1).mono fun g' b hg' => ?_, ih hp.2⟩
    subst hg'
    exact D.atRest_idle b
  | both p q next _ _ ih => exact ⟨hp.1, hp.2.1, fun b c => ih b c (hp.2.2 b c)⟩

/-- A service of neutral steps may be begun anew. -/
theorem Keeps.atRest {p : Program σ Bool} (hp : Keeps D.Neutral p) :
    Follows D p D.idle D.AtRest := by
  refine hp.follows.mono fun g' b hg' => ?_
  subst hg'
  exact D.atRest_idle b

/-- What every step that a discipline allows is like, is what every step of a program is like. -/
theorem Follows.keeps {G : σ → σ → Prop} {p : Program σ α} {Q : γ → α → Prop}
    (hinv : ∀ s, D.Inv s) (hG : ∀ g s s' g', D.Acts g s s' g' → G s s') (hp : Follows D p g Q) :
    Keeps G p := by
  have hneutral (s s' : σ) (h : D.Neutral s s') : G s s' := hG D.idle s s' D.idle (h (hinv s) _)
  induction p generalizing g with
  | done a => trivial
  | await deadline step next ih =>
    intro s b s' h
    obtain ⟨g', hacts, hnext⟩ := hp s b s' (hinv s) h
    exact ⟨hG g s s' g' hacts, ih b hnext⟩
  | spawn service next ihs ih =>
    rcases hp with ⟨hservice, hnext⟩ | ⟨i, g', -, hservice, hnext⟩
    · exact ⟨ihs hservice, ih hnext⟩
    · exact ⟨ihs hservice, ih hnext⟩
  | both p q next _ _ ih =>
    exact ⟨hp.1.mono hneutral, hp.2.1.mono hneutral, fun b c => ih b c (hp.2.2 b c)⟩

/-- What a step of a program that follows a discipline is: one that it allows, which starts
services that begin idle, or the start of one to which something is handed over. -/
inductive Follows.Goes (D : Discipline σ γ) (g : γ) (s s' : σ) :
    List (Program σ Bool) → γ → Prop
  | acts {started : List (Program σ Bool)} {g' : γ} (h : D.Acts g s s' g')
      (hstarted : ∀ q ∈ started, Follows D q D.idle D.AtRest) : Goes D g s s' started g'
  | hands {service : Program σ Bool} {i g' : γ} (hs : s' = s) (h : D.Hands g service i g')
      (hservice : Follows D service i D.Over) : Goes D g s s' [service] g'

theorem Follows.step {s s' : σ} {p p' : Program σ α} {started : List (Program σ Bool)}
    {Q : γ → α → Prop} (h : Step s p s' p' started) (hinv : D.Inv s) (hp : Follows D p g Q) :
    ∃ g', Follows.Goes D g s s' started g' ∧ Follows D p' g' Q := by
  cases h with
  | await h =>
    obtain ⟨g', hacts, hnext⟩ := hp _ _ _ hinv h
    exact ⟨g', .acts hacts (by simp), hnext⟩
  | spawn =>
    rcases hp with ⟨hservice, hnext⟩ | ⟨i, g', hhands, hservice, hnext⟩
    · exact ⟨g, .acts (D.acts_self hinv) (by simpa using hservice), hnext⟩
    · exact ⟨g', .hands rfl hhands hservice, hnext⟩
  | left h =>
    obtain ⟨hs, hp', hstarted⟩ := hp.1.step D.neutral_self h
    exact ⟨g, .acts (hs hinv g) fun q hq => (hstarted q hq).atRest, hp', hp.2⟩
  | right h =>
    obtain ⟨hs, hq', hstarted⟩ := hp.2.1.step D.neutral_self h
    exact ⟨g, .acts (hs hinv g) fun q hq => (hstarted q hq).atRest, hp.1, hq', hp.2.2⟩
  | join => exact ⟨g, .acts (D.acts_self hinv) (by simp), hp.2.2 _ _⟩

end Follows

end LspClient.Program
