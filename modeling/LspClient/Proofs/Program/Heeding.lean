import LspClient.Proofs.Program.Ends
import Mathlib.Data.List.Forall2

/-!
# Programs that heed a request to stop

A program may be asked to stop while it waits for somebody who will never act. It heeds that if,
once it was asked, every wait of it is over by itself. `Heeds T p s` says so of `p` begun at `s`, by
recursion on the program, on the terms `T`: what the others may do in the meantime, what comes about
by itself, and which waits are excused. What heeds a request cannot be stuck in it, wherever it has
got to (`Heeds.goes_on`), unless in a wait that is excused.

`Alongside R begin s s' as p`: programs began at `s`, `begin a` for each `a`, and were run side by
side up to `s'`, where `p` is left of them all, while what happened between the steps of each was in
`R`. Every step of one of them keeps that up; in the end there is one result for each (`results`).
-/

namespace LspClient.Program

variable {σ α β γ : Type}

/-- `p` stands at the wait `q`, perhaps with others beside it. -/
inductive StandsAt {β : Type} (q : Program σ β) : {α : Type} → Program σ α → Prop
  | await {α : Type} {deadline : Option Nat} {step : σ → Option (β × σ)} {next : β → Program σ α}
      (h : q = .await deadline step .done) : StandsAt q (.await deadline step next)
  | left {α γ δ : Type} {p : Program σ γ} {p' : Program σ δ} {next : γ → δ → Program σ α}
      (h : StandsAt q p) : StandsAt q (.both p p' next)
  | right {α γ δ : Type} {p : Program σ γ} {p' : Program σ δ} {next : γ → δ → Program σ α}
      (h : StandsAt q p') : StandsAt q (.both p p' next)

/-- Who stands at a wait still does so after a step, unless it was the one that is waited for. -/
theorem StandsAt.step {q : Program σ β} {p p' : Program σ α} {s s' : σ}
    {started : List (Program σ Bool)} (h : StandsAt q p) (hs : Step s p s' p' started) :
    StandsAt q p' ∨ ∃ b, Step s q s' (.done b) [] := by
  induction h with
  | await hq =>
    cases hs with
    | await hs =>
      subst hq
      exact .inr ⟨_, .await hs⟩
  | left hp ih =>
    cases hs with
    | left hs => exact (ih hs).imp_left .left
    | right => exact .inl (.left hp)
    | join => cases hp
  | right hp ih =>
    cases hs with
    | left => exact .inl (.right hp)
    | right hs => exact (ih hs).imp_left .right
    | join => cases hp

theorem StandsAt.bind {q : Program σ β} {p : Program σ α} (h : StandsAt q p)
    (k : α → Program σ γ) : StandsAt q (p >>= k) := by
  cases h with
  | await hq => exact .await hq
  | left h => exact .left h
  | right h => exact .right h

/-- Where a program may get to, when what happens between its steps is in `R`. -/
inductive Reaches (R : σ → σ → Prop) (p : Program σ α) (s : σ) : Program σ α → σ → Prop
  | start : Reaches R p s p s
  | others {q : Program σ α} {s₁ s₂ : σ} (h : Reaches R p s q s₁) (hs : R s₁ s₂) :
      Reaches R p s q s₂
  | step {q q' : Program σ α} {s₁ s₂ : σ} {started : List (Program σ Bool)}
      (h : Reaches R p s q s₁) (hs : Step s₁ q s₂ q' started) : Reaches R p s q' s₂

theorem Reaches.mono {R R' : σ → σ → Prop} {p q : Program σ α} {s s' : σ}
    (hR : ∀ s s', R s s' → R' s s') (h : Reaches R p s q s') :
    Reaches R' p s q s' := by
  induction h with
  | start => exact .start
  | others _ hs ih => exact ih.others (hR _ _ hs)
  | step _ hs ih => exact ih.step hs

theorem Reaches.results {R : σ → σ → Prop} {p q : Program σ α} {Q : α → Prop}
    (h : Reaches R p s q s')
    (hp : p.Results Q) : q.Results Q := by
  induction h with
  | start => exact hp
  | others _ _ ih => exact ih
  | step _ hs ih => exact hs.results ih

/-- On what terms a program heeds a request to stop. -/
structure Terms (σ : Type) where
  /-- What may happen, in a step of the program or of others. -/
  Goes : σ → σ → Prop
  /-- The request was made. -/
  Stopped : σ → Prop
  /-- What comes about by itself. -/
  Lets : σ → σ → Prop
  /-- The waits that may last. -/
  Excuses : {β : Type} → Program σ β → Prop
  goes_refl : ∀ s, Goes s s
  goes_trans : ∀ {s s' s'' : σ}, Goes s s' → Goes s' s'' → Goes s s''
  lets_refl : ∀ s, Lets s s

def Heeds (T : Terms σ) : {α : Type} → Program σ α → σ → Prop
  | _, .done _, _ => True
  | _, .await deadline step next, s => ∀ s', T.Goes s s' →
      (T.Stopped s' → T.Excuses (.await deadline step .done) ∨
        ∃ s'', T.Lets s' s'' ∧ (step s'').isSome) ∧
      ∀ b s'', step s' = some (b, s'') → T.Goes s' s'' ∧ Heeds T (next b) s''
  | _, .spawn _ next, s => Heeds T next s
  | _, .both p q next, s =>
      Heeds T p s ∧ Heeds T q s ∧ ∀ s', T.Goes s s' → ∀ b c, Heeds T (next b c) s'

def Heedful (T : Terms σ) (p : Program σ α) : Prop := ∀ s, p.Heeds T s

variable {T : Terms σ} {s s' : σ}

/-! ### Where a program heeds a request -/

theorem Heeds.goes {p : Program σ α} (h : p.Heeds T s) (hs : T.Goes s s') : p.Heeds T s' := by
  induction p with
  | done a => trivial
  | await deadline step next => exact fun s'' hs' => h s'' (T.goes_trans hs hs')
  | spawn service next _ ih => exact ih h
  | both p q next ihp ihq =>
    exact ⟨ihp h.1, ihq h.2.1, fun s'' hs' => h.2.2 s'' (T.goes_trans hs hs')⟩

theorem Heeds.step {p p' : Program σ α} {started : List (Program σ Bool)}
    (hstep : Step s p s' p' started) (h : p.Heeds T s) : T.Goes s s' ∧ p'.Heeds T s' := by
  induction hstep with
  | await hs => exact (h _ (T.goes_refl _)).2 _ _ hs
  | spawn => exact ⟨T.goes_refl _, h⟩
  | left _ ih =>
    obtain ⟨hs, hp'⟩ := ih h.1
    exact ⟨hs, hp', h.2.1.goes hs, fun s'' hs' => h.2.2 s'' (T.goes_trans hs hs')⟩
  | right _ ih =>
    obtain ⟨hs, hq'⟩ := ih h.2.1
    exact ⟨hs, h.1.goes hs, hq', fun s'' hs' => h.2.2 s'' (T.goes_trans hs hs')⟩
  | join => exact ⟨T.goes_refl _, h.2.2 _ (T.goes_refl _) _ _⟩

theorem Heeds.reaches {p q : Program σ α} (h : p.Heeds T s) (hreach : Reaches T.Goes p s q s') :
    q.Heeds T s' := by
  induction hreach with
  | start => exact h
  | others _ hs ih => exact ih.goes hs
  | step _ hs ih => exact (ih.step hs).2

theorem canMove_both {p : Program σ β} {q : Program σ γ} {next : β → γ → Program σ α}
    (h : p.canMove s = true ∨ q.canMove s = true) :
    (Program.both p q next).canMove s = true := by
  have hor : (p.canMove s || q.canMove s) = true := Bool.or_eq_true_iff.2 h
  cases p <;> cases q <;> first | rfl | exact hor

/-- A program that was asked to stop can go on by itself until it is over, unless it stands at a
wait that is excused and lasts. -/
theorem Heeds.goes_on {p : Program σ α} (h : p.Heeds T s) (hstopped : T.Stopped s)
    (hgoing : p.result? = none) :
    (∃ s', T.Lets s s' ∧ p.canMove s' = true) ∨
      ∃ (β : Type) (q : Program σ β), T.Excuses q ∧ q.canMove s = false ∧ q.StandsAt p := by
  induction p with
  | done a => cases hgoing
  | await deadline step next =>
    rcases (h s (T.goes_refl s)).1 hstopped with hexcused | ⟨s', hs', hstep⟩
    · cases hlasts : (step s).isSome with
      | true => exact .inl ⟨s, T.lets_refl s, hlasts⟩
      | false => exact .inr ⟨_, _, hexcused, hlasts, .await rfl⟩
    · exact .inl ⟨s', hs', hstep⟩
  | spawn service next => exact .inl ⟨s, T.lets_refl s, rfl⟩
  | both p q next ihp ihq =>
    -- one of the two is not over yet, and goes on, or both are and the program goes on from there
    cases hp : p.result? with
    | none =>
      rcases ihp h.1 hp with ⟨s', hs', hcan⟩ | ⟨β, q', hexcused, hlasts, hstands⟩
      · exact .inl ⟨s', hs', canMove_both (.inl hcan)⟩
      · exact .inr ⟨β, q', hexcused, hlasts, .left hstands⟩
    | some b =>
      cases hq : q.result? with
      | none =>
        rcases ihq h.2.1 hq with ⟨s', hs', hcan⟩ | ⟨β, q', hexcused, hlasts, hstands⟩
        · exact .inl ⟨s', hs', canMove_both (.inr hcan)⟩
        · exact .inr ⟨β, q', hexcused, hlasts, .right hstands⟩
      | some c =>
        rw [eq_done_of_result? hp, eq_done_of_result? hq]
        exact .inl ⟨s, T.lets_refl s, rfl⟩

/-! ### What programs that heed a request are made of -/

theorem Heeds.bind {p : Program σ α} {k : α → Program σ β} (hp : p.Heeds T s)
    (hk : ∀ s', T.Goes s s' → ∀ a, (k a).Heeds T s') : (p >>= k).Heeds T s := by
  change (p.bind k).Heeds T s
  induction p generalizing s with
  | done a => exact hk s (T.goes_refl s) a
  | await deadline step next ih =>
    intro s' hs
    obtain ⟨hfree, hnext⟩ := hp s' hs
    refine ⟨hfree, fun b s'' hstep => ?_⟩
    obtain ⟨hs', hrest⟩ := hnext b s'' hstep
    exact ⟨hs', ih b hrest fun s₁ h₁ => hk s₁ (T.goes_trans (T.goes_trans hs hs') h₁)⟩
  | spawn service next _ ih => exact ih hp hk
  | both p q next _ _ ih =>
    exact ⟨hp.1, hp.2.1, fun s' hs b c =>
      ih b c (hp.2.2 s' hs b c) fun s₁ h₁ => hk s₁ (T.goes_trans hs h₁)⟩

theorem Heedful.pure (a : α) : Heedful T (Pure.pure a : Program σ α) := fun _ => trivial

theorem Heedful.bind {p : Program σ α} {k : α → Program σ β} (hp : p.Heedful T)
    (hk : ∀ a, (k a).Heedful T) : (p >>= k).Heedful T :=
  fun s => (hp s).bind fun s' _ a => hk a s'

/-- A wait that is over by itself once the request was made. -/
theorem Heedful.await {deadline : Option Nat} {step : σ → Option (α × σ)}
    (hgoes : ∀ s a s', step s = some (a, s') → T.Goes s s')
    (hfree : ∀ s, T.Stopped s → (step s).isSome) : Heedful T (.await deadline step .done) :=
  fun _ s _ => ⟨fun h => .inr ⟨s, T.lets_refl s, hfree s h⟩,
    fun a s' hs => ⟨hgoes s a s' hs, trivial⟩⟩

theorem Heedful.excused {deadline : Option Nat} {step : σ → Option (α × σ)}
    (hgoes : ∀ s a s', step s = some (a, s') → T.Goes s s')
    (hexcused : T.Excuses (.await deadline step .done)) :
    Heedful T (.await deadline step .done) :=
  fun _ s _ => ⟨fun _ => .inl hexcused, fun a s' hs => ⟨hgoes s a s' hs, trivial⟩⟩

theorem Heedful.always {deadline : Option Nat} {step : σ → α × σ}
    (h : ∀ s, T.Goes s (step s).2) :
    Heedful T (.await deadline (fun s => some (step s)) .done) := by
  refine Heedful.await (fun s a s' hs => ?_) fun _ _ => rfl
  have hgoes := h s
  rwa [Option.some.inj hs] at hgoes

theorem Heedful.act {step : σ → α × σ} (h : ∀ s, T.Goes s (step s).2) : Heedful T (act step) :=
  Heedful.always h

theorem Heedful.locked {step : σ → α × σ} (h : ∀ s, T.Goes s (step s).2) :
    Heedful T (locked step) :=
  Heedful.always h

theorem Heedful.look {view : σ → α} : Heedful T (look view) := Heedful.act T.goes_refl

theorem Heedful.update {f : σ → σ} (h : ∀ s, T.Goes s (f s)) : Heedful T (update f) :=
  Heedful.act h

theorem Heedful.fork {p : Program σ Unit} : Heedful T (fork p) := fun _ => trivial

theorem Heedful.all (ps : List (Program σ α)) (h : ∀ p ∈ ps, p.Heedful T) :
    (all ps).Heedful T := by
  induction ps with
  | nil => exact fun _ => trivial
  | cons p ps ih =>
    intro s
    exact ⟨h p (List.mem_cons_self ..) s, ih (fun q hq => h q (List.mem_cons_of_mem p hq)) s,
      fun _ _ _ _ => trivial⟩

/-- A program that is given up when the request is made, whatever it waits for. -/
theorem Heedful.abandonWhen {p : Program σ α} {stop : σ → Bool} (hp : p.Keeps T.Goes)
    (hstop : ∀ s, T.Stopped s → stop s = true) : (p.abandonWhen stop).Heedful T := by
  induction p with
  | done a =>
    rw [Program.abandonWhen]
    exact fun _ => trivial
  | await deadline step next ih =>
    rw [Program.abandonWhen]
    -- where the wait is stopped, it is over at once
    refine fun _ s _ => ⟨fun h => .inr ⟨s, T.lets_refl s, ?_⟩, fun b s' hs => ?_⟩
    · dsimp only
      rw [if_pos (hstop s h)]
      rfl
    · dsimp only at hs
      split at hs
      · cases hs
        exact ⟨T.goes_refl s, trivial⟩
      · obtain ⟨⟨b', s''⟩, hstep, heq⟩ := Option.map_eq_some_iff.1 hs
        cases heq
        obtain ⟨hgoes, hnext⟩ := hp s b' s'' hstep
        exact ⟨hgoes, ih b' hnext s''⟩
  | spawn service next _ ih =>
    rw [Program.abandonWhen]
    exact ih hp.2
  | both p q next ihp ihq ih =>
    rw [Program.abandonWhen]
    refine fun s => ⟨ihp hp.1 s, ihq hp.2.1 s, fun s' _ b c => ?_⟩
    cases b with
    | none => trivial
    | some b =>
      cases c with
      | none => trivial
      | some c => exact ih b c (hp.2.2 b c) s'

/-! ### Playing a program -/

/-- Let the others act, one after another, and take a step after each if one is possible. -/
def playOn : List (σ → σ) → σ × Program σ α → σ × Program σ α
  | [], r => r
  | others :: rest, (s, p) =>
    match p.step? (others s) with
    | some (s', p', _) => playOn rest (s', p')
    | none => playOn rest (others s, p)

theorem reaches_playOn {R : σ → σ → Prop} {p q : Program σ α} (l : List (σ → σ))
    (hl : ∀ others ∈ l, ∀ s, R s (others s)) (h : Reaches R p s q s') :
    Reaches R p s (playOn l (s', q)).2 (playOn l (s', q)).1 := by
  induction l generalizing s' q with
  | nil => exact h
  | cons others rest ih =>
    have hothers := h.others (hl others (List.mem_cons_self ..) s')
    have hrest : ∀ f ∈ rest, ∀ s, R s (f s) := fun f hf => hl f (List.mem_cons_of_mem _ hf)
    rw [playOn]
    split
    · next hstep => exact ih hrest (hothers.step (step_of_step? hstep))
    · exact ih hrest hothers

/-! ### Scripts -/

theorem bind_assoc {p : Program σ α} {k : α → Program σ β} {k' : β → Program σ γ} :
    (p.bind k).bind k' = p.bind fun a => (k a).bind k' := by
  induction p with
  | done a => rfl
  | await deadline step next ih =>
    simp only [Program.bind]
    congr 1
    exact funext fun b => ih b
  | spawn service next _ ih =>
    simp only [Program.bind]
    rw [ih]
  | both p q next _ _ ih =>
    simp only [Program.bind]
    congr 1
    exact funext fun b => funext fun c => ih b c

theorem bind_done {p : Program σ α} : p.bind .done = p := by
  induction p with
  | done a => rfl
  | await deadline step next ih =>
    simp only [Program.bind, ih]
  | spawn service next _ ih => rw [Program.bind, ih]
  | both p q next _ _ ih =>
    simp only [Program.bind, ih]

section Script

variable {Act : Type} {Answer : Act → Type} {performed : (o : Act) → Program σ (Answer o)}

theorem run_bind {p : Script σ Act Answer α} {k : α → Script σ Act Answer β} :
    (p >>= k).run performed = p.run performed >>= fun a => (k a).run performed := by
  change (p.bind k).run performed = (p.run performed).bind fun a => (k a).run performed
  induction p with
  | done a => rfl
  | work q next ih =>
    simp only [Script.bind, Script.run, ih]
    exact bind_assoc.symm
  | act o next ih =>
    simp only [Script.bind, Script.run, ih]
    exact bind_assoc.symm

end Script

end LspClient.Program

namespace LspClient.Program

variable {σ α β ι : Type} {R R' : σ → σ → Prop} {s s' s'' : σ}

/-- A program whose result is only relabelled goes on as the program does. -/
theorem Reaches.of_label {p : Program σ α} {f : α → β} {q : Program σ β}
    (h : Reaches R (p >>= fun a => pure (f a)) s q s') :
    ∃ r, q = (r >>= fun a => pure (f a)) ∧ Reaches R p s r s' := by
  induction h with
  | start => exact ⟨p, rfl, .start⟩
  | others _ hs ih =>
    obtain ⟨r, rfl, hr⟩ := ih
    exact ⟨r, rfl, hr.others hs⟩
  | step _ hs ih =>
    obtain ⟨r, rfl, hr⟩ := ih
    rcases step_bind hs with ⟨a, rfl, hdone⟩ | ⟨r', rfl, hstep⟩
    · cases hdone
    · exact ⟨r', rfl, hr.step hstep⟩

theorem Reaches.done_of_label {p : Program σ α} {f : α → β} {b : β}
    (h : Reaches R (p >>= fun a => pure (f a)) s (.done b) s') :
    ∃ a, b = f a ∧ Reaches R p s (.done a) s' := by
  obtain ⟨r, heq, hr⟩ := h.of_label
  cases r with
  | done a =>
    cases heq
    exact ⟨a, rfl, hr⟩
  | _ => cases heq

inductive Alongside (R : σ → σ → Prop) (begin : ι → Program σ α) (s s' : σ) :
    List ι → Program σ (List α) → Prop
  | nil : Alongside R begin s s' [] (.done [])
  | cons {a : ι} {as : List ι} {q : Program σ α} {rest : Program σ (List α)}
      (hq : Reaches R (begin a) s q s') (hrest : Alongside R begin s s' as rest) :
      Alongside R begin s s' (a :: as) (.both q rest fun b bs => .done (b :: bs))
  | joined {a : ι} {as : List ι} {b : α} {bs : List α} (hb : Reaches R (begin a) s (.done b) s')
      (hrest : Alongside R begin s s' as (.done bs)) :
      Alongside R begin s s' (a :: as) (.done (b :: bs))

variable {begin : ι → Program σ α} {as : List ι} {p p' : Program σ (List α)}
  {started : List (Program σ Bool)}

theorem alongside_all (as : List ι) : Alongside R begin s s as (all (as.map begin)) := by
  induction as with
  | nil => exact .nil
  | cons a as ih => exact .cons .start ih

theorem Alongside.mono (hR : ∀ s s', R s s' → R' s s') (h : Alongside R begin s s' as p) :
    Alongside R' begin s s' as p := by
  induction h with
  | nil => exact .nil
  | cons hq _ ih => exact .cons (hq.mono hR) ih
  | joined hb _ ih => exact .joined (hb.mono hR) ih

theorem Alongside.others (h : Alongside R begin s s' as p) (hs : R s' s'') :
    Alongside R begin s s'' as p := by
  induction h with
  | nil => exact .nil
  | cons hq _ ih => exact .cons (hq.others hs) ih
  | joined hb _ ih => exact .joined (hb.others hs) ih

/-- A step is one of a single program, and happens between the steps of all others. -/
theorem Alongside.step (h : Alongside R begin s s' as p) (hstep : Step s' p s'' p' started)
    (hs : R s' s'') : Alongside R begin s s'' as p' := by
  induction h generalizing p' with
  | nil => cases hstep
  | joined => cases hstep
  | cons hq hrest ih =>
    cases hstep with
    | left hstep => exact .cons (hq.step hstep) (hrest.others hs)
    | right hstep => exact .cons (hq.others hs) (ih hstep)
    | join => exact .joined hq hrest

theorem Alongside.results {bs : List α} (h : Alongside R begin s s' as (.done bs)) :
    List.Forall₂ (fun a b => Reaches R (begin a) s (.done b) s') as bs := by
  generalize hp : Program.done bs = p at h
  induction h generalizing bs with
  | nil =>
    cases hp
    exact .nil
  | cons => cases hp
  | joined hb _ ih =>
    cases hp
    exact .cons hb (ih rfl)

end LspClient.Program
