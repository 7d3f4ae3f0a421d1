import LspClient.Proofs.Program.Amid
import LspClient.Proofs.Program.Heeding

/-!
# A program whose parts are clients

A program amid a crew may do what clients of the crew do. `Hosted R S l p` says that the parts of `p`
that are such are the clients `l`, as far as they have come, that all other steps of `p` are among
what may happen beside the crew, and that `S` holds of the result of `p` and those of the clients.

Then the run of the program is one of the crew, with the clients behind those who are there already
(`Amid.hosted`): every step of the program is a move, and the states are the same (`Mirrors`).
-/

namespace LspClient

namespace Program

variable {σ α β : Type} {s s' : σ} {started : List (Program σ Bool)}

/-- A step starts nothing, or one service and nothing else. -/
theorem Step.started_cases {p p' : Program σ α} (h : Step s p s' p' started) :
    started = [] ∨ s' = s ∧ ∃ service, started = [service] := by
  induction h with
  | await => exact .inl rfl
  | spawn => exact .inr ⟨rfl, _, rfl⟩
  | left _ ih => exact ih
  | right _ ih => exact ih
  | join => exact .inl rfl

end Program

namespace Crew

open Program

variable {σ κ ρ α β γ : Type} {R : Rules σ κ ρ} {start c c' : Crew σ κ ρ}
  {moments moments' later : List (Moment σ)} {s s' : σ} {a : Actor}

/-- The states before and after the moments are the same. -/
def Mirrors (moments moments' : List (Moment σ)) : Prop :=
  moments'.map (fun m => (m.before, m.after)) = moments.map fun m => (m.before, m.after)

theorem Mirrors.snoc (h : Mirrors moments moments') (a a' : Actor) (s s' : σ) :
    Mirrors (moments ++ [⟨a, s, s'⟩]) (moments' ++ [⟨a', s, s'⟩]) := by
  unfold Mirrors at *
  simp [h]

theorem Mirrors.mem (h : Mirrors moments moments') {m' : Moment σ} (hm' : m' ∈ moments') :
    ∃ m ∈ moments, m.before = m'.before ∧ m.after = m'.after := by
  have hstates := List.mem_map_of_mem (f := fun m : Moment σ => (m.before, m.after)) hm'
  rw [h] at hstates
  obtain ⟨m, hm, heq⟩ := List.mem_map.1 hstates
  exact ⟨m, hm, (Prod.mk.inj heq).1, (Prod.mk.inj heq).2⟩

/-! ### More clients -/

/-- The crew with more clients behind those who are there. -/
def join (c : Crew σ κ ρ) (l : List (κ × Program σ ρ)) : Crew σ κ ρ :=
  { c with clients := c.clients ++ l }

theorem Move.join (hmove : Move R c a c') (hnone : c'.clients.length = c.clients.length)
    (l : List (κ × Program σ ρ)) : Move R (c.join l) a (c'.join l) := by
  cases hmove with
  | enter x => simp at hnone
  | serve h => exact .serve (c.join l) h
  | @client k x p p' s started hk hstep =>
    have hlt := (List.getElem?_eq_some_iff.1 hk).1
    have hk' : (c.join l).clients[k]? = some (x, p) := by
      rw [Crew.join, List.getElem?_append_left hlt, hk]
    have hmove := Move.client (R := R) hk' hstep
    rwa [Crew.join, List.set_append_left _ _ hlt] at hmove
  | service hk hstep => exact .service (c := c.join l) hk hstep
  | again hk => exact .again (c := c.join l) hk
  | outside h => exact .outside (c := c.join l) h

/-- Clients that stand at their beginnings. -/
def begun (R : Rules σ κ ρ) (xs : List κ) : List (κ × Program σ ρ) :=
  xs.map fun x => (x, R.program x)

/-- Clients join, and nothing happens. -/
theorem exists_run_enter (R : Rules σ κ ρ) (c : Crew σ κ ρ) (xs : List κ) :
    ∃ moments, Run R c moments (c.join (begun R xs)) ∧ ∀ m ∈ moments, m.after = m.before := by
  induction xs using List.reverseRecOn with
  | nil =>
    refine ⟨[], ?_, nofun⟩
    rw [begun, Crew.join, List.map_nil, List.append_nil]
    exact .nil
  | append_singleton xs x ih =>
    obtain ⟨moments, run, hstill⟩ := ih
    have hrun := run.move (.enter _ x)
    refine ⟨moments ++ [⟨.client (c.join (begun R xs)).clients.length, c.state, c.state⟩], ?_,
      fun m hm => ?_⟩
    · simpa [Crew.join, begun] using hrun
    · rcases List.mem_append.1 hm with hm | hm
      · exact hstill m hm
      · obtain rfl := List.mem_singleton.1 hm
        rfl

/-! ### Hosted programs -/

/-- Clients that are over. -/
def finished (ys : List (κ × ρ)) : List (κ × Program σ ρ) := ys.map fun y => (y.1, .done y.2)

inductive Hosted (R : Rules σ κ ρ) : {α : Type} → (α → List ρ → Prop) →
    List (κ × Program σ ρ) → Program σ α → Prop
  | ask {α β : Type} {S : α → List ρ → Prop} {x : κ} {q : Program σ β} {f : β → ρ}
      {k : β → Program σ α} (hk : ∀ b, (k b).Keeps R.Outside)
      (hS : ∀ b, (k b).Results fun a => S a [f b]) :
      Hosted R S [(x, q >>= fun b => pure (f b))] (q >>= k)
  | ended {α : Type} {S : α → List ρ → Prop} {ys : List (κ × ρ)} {p : Program σ α}
      (hp : p.Keeps R.Outside) (hS : p.Results fun a => S a (ys.map Prod.snd)) :
      Hosted R S (finished ys) p
  | later {α γ : Type} {S : α → List ρ → Prop} {l : List (κ × Program σ ρ)} {p : Program σ γ}
      {k : γ → Program σ α} (hp : p.Keeps R.Outside) (hk : ∀ c, Hosted R S l (k c)) :
      Hosted R S l (p >>= k)
  | both {α β γ : Type} {S : α → List ρ → Prop} {S₁ : β → List ρ → Prop} {S₂ : γ → List ρ → Prop}
      {l₁ l₂ : List (κ × Program σ ρ)} {p : Program σ β} {q : Program σ γ}
      {next : β → γ → Program σ α} (hp : Hosted R S₁ l₁ p) (hq : Hosted R S₂ l₂ q)
      (hnext : ∀ b c, (next b c).Keeps R.Outside)
      (hS : ∀ b c rs₁ rs₂, S₁ b rs₁ → S₂ c rs₂ → (next b c).Results fun a => S a (rs₁ ++ rs₂)) :
      Hosted R S (l₁ ++ l₂) (.both p q next)

namespace Hosted

variable {S : α → List ρ → Prop} {l l' : List (κ × Program σ ρ)} {p p' : Program σ α}
  {started : List (Program σ Bool)}

theorem of_keeps (hp : p.Keeps R.Outside) (hS : p.Results fun a => S a []) : Hosted R S [] p :=
  @ended σ κ ρ R α S [] p hp hS

/-- When a program is done, so are its clients. -/
theorem done_inv {x : α} (h : Hosted R S l (.done x)) :
    ∃ ys, l = finished ys ∧ S x (ys.map Prod.snd) := by
  generalize hp : Program.done x = p at h
  induction h with
  | @ask _ _ _ y q f k _ hS =>
    cases q with
    | done b =>
      have hk : k b = .done x := hp.symm
      have hresult := hS b
      rw [hk] at hresult
      exact ⟨[(y, f b)], rfl, hresult⟩
    | await => cases hp
    | spawn => cases hp
    | both => cases hp
  | ended _ hS =>
    subst hp
    exact ⟨_, rfl, hS⟩
  | @later _ _ _ _ q k _ _ ih =>
    cases q with
    | done c => exact ih c hp
    | await => cases hp
    | spawn => cases hp
    | both => cases hp
  | both => cases hp

/-- A step that is among what may happen beside the crew, and starts what may be started there. -/
theorem move_of_outside (hserves : ∀ p : Program σ Bool, p.Keeps R.Outside → R.Serves p)
    (hs : Step s p s' p' started) (hG : R.Outside s s') (hstarted : ∀ q ∈ started, q.Keeps R.Outside)
    (cs : List (κ × Program σ ρ)) (sv : List (Program σ Bool × Program σ Bool)) :
    ∃ a, Move R ⟨s, cs, sv⟩ a ⟨s', cs, sv ++ fresh started⟩ := by
  rcases hs.started_cases with rfl | ⟨rfl, service, rfl⟩
  · refine ⟨.outside, ?_⟩
    have hmove : Move R ⟨s, cs, sv⟩ .outside { (⟨s, cs, sv⟩ : Crew σ κ ρ) with state := s' } :=
      .outside hG
    rwa [fresh, List.map_nil, List.append_nil]
  · exact ⟨_, .serve ⟨s', cs, sv⟩ (hserves service (hstarted service (List.mem_singleton_self _)))⟩

variable (hrefl : ∀ s, R.Outside s s)
  (hserves : ∀ p : Program σ Bool, p.Keeps R.Outside → R.Serves p)

include hrefl hserves

/-- A step of a program is a move of one of its clients, or happens beside them. -/
theorem step (h : Hosted R S l p) (hs : Step s p s' p' started) :
    ∃ l', Hosted R S l' p' ∧ l'.map Prod.fst = l.map Prod.fst ∧
      ∀ front back sv, ∃ a, Move R ⟨s, front ++ l ++ back, sv⟩ a
        ⟨s', front ++ l' ++ back, sv ++ fresh started⟩ := by
  -- what no client stands for any more moves for the crew as something from outside
  have hover {α : Type} {S : α → List ρ → Prop} {p p' : Program σ α} (ys : List (κ × ρ))
      (hp : p.Keeps R.Outside) (hS : p.Results fun a => S a (ys.map Prod.snd))
      (hs : Step s p s' p' started) : ∃ l', Hosted R S l' p' ∧
        l'.map Prod.fst = (finished ys : List (κ × Program σ ρ)).map Prod.fst ∧
        ∀ front back sv, ∃ a, Move R ⟨s, front ++ finished ys ++ back, sv⟩ a
          ⟨s', front ++ l' ++ back, sv ++ fresh started⟩ := by
    obtain ⟨hG, hp', hstarted⟩ := hp.step hrefl hs
    exact ⟨_, .ended hp' (hs.results hS), rfl, fun front back sv =>
      move_of_outside hserves hs hG hstarted _ sv⟩
  induction h with
  -- a client asks, a part comes before those that ask, or two parts go side by side
  | @ask _ _ S x q f k hk hS =>
    rcases Program.step_bind hs with ⟨b, rfl, hstep⟩ | ⟨q', rfl, hstep⟩
    · exact hover [(x, f b)] (hk b) (hS b) hstep
    · refine ⟨_, .ask hk hS, rfl, fun front back sv => ⟨.client front.length, ?_⟩⟩
      have hmove := Move.client (R := R)
        (c := ⟨s, front ++ [(x, q >>= fun b => pure (f b))] ++ back, sv⟩) (k := front.length)
        (a := x) (p := q >>= fun b => pure (f b)) (by simp) hstep.bind
      simpa using hmove
  | ended hp hS => exact hover _ hp hS hs
  | @later _ _ S l q k hq hk ih =>
    rcases Program.step_bind hs with ⟨c, rfl, hstep⟩ | ⟨q', rfl, hstep⟩
    · exact ih c hstep
    · obtain ⟨hG, hq', hstarted⟩ := hq.step hrefl hstep
      exact ⟨_, .later hq' hk, rfl, fun front back sv =>
        move_of_outside hserves hs hG hstarted _ sv⟩
  | @both _ _ _ S S₁ S₂ l₁ l₂ p q next hp hq hnext hS ihp ihq =>
    cases hs with
    | left hs =>
      obtain ⟨l', hp', hkeys, hmove⟩ := ihp hs
      refine ⟨_, .both hp' hq hnext hS, by simp [hkeys], fun front back sv => ?_⟩
      simpa using hmove front (l₂ ++ back) sv
    | right hs =>
      obtain ⟨l', hq', hkeys, hmove⟩ := ihq hs
      refine ⟨_, .both hp hq' hnext hS, by simp [hkeys], fun front back sv => ?_⟩
      simpa using hmove (front ++ l₁) back sv
    | @join _ _ _ b c =>
      obtain ⟨ys₁, rfl, hb⟩ := hp.done_inv
      obtain ⟨ys₂, rfl, hc⟩ := hq.done_inv
      have hresults := hS b c _ _ hb hc
      rw [← List.map_append] at hresults
      refine ⟨_, .ended (hnext b c) hresults, by simp [finished], fun front back sv => ?_⟩
      refine ⟨.outside, ?_⟩
      have hmove : Move R ⟨s, front ++ (finished ys₁ ++ finished ys₂) ++ back, sv⟩ .outside
          ⟨s, front ++ (finished ys₁ ++ finished ys₂) ++ back, sv⟩ := .outside (hrefl s)
      simpa [fresh, finished] using hmove

end Hosted

/-- What comes behind a hosted program and needs no clients. -/
theorem Hosted.then {S : α → List ρ → Prop} {S' : β → List ρ → Prop}
    {l : List (κ × Program σ ρ)} {p : Program σ α} {k : α → Program σ β} (h : Hosted R S l p)
    (hk : ∀ a, (k a).Keeps R.Outside)
    (hS : ∀ a rs, S a rs → (k a).Results fun b => S' b rs) : Hosted R S' l (p >>= k) := by
  induction h with
  | @ask _ _ _ x q f k₀ hk₀ hS₀ =>
    have hassoc : ((q >>= k₀) >>= k) = q >>= fun b => k₀ b >>= k := bind_assoc
    rw [hassoc]
    exact .ask (fun b => (hk₀ b).bind hk) fun b => (hS₀ b).bind fun a ha => hS a _ ha
  | ended hp hS₀ => exact .ended (hp.bind hk) (hS₀.bind fun a ha => hS a _ ha)
  | @later _ _ _ _ q k₀ hq _ ih =>
    have hassoc : ((q >>= k₀) >>= k) = q >>= fun b => k₀ b >>= k := bind_assoc
    rw [hassoc]
    exact .later hq fun c => ih c hk hS
  | both hp hq hnext hS₀ =>
    exact .both hp hq (fun b c => (hnext b c).bind hk) fun b c rs₁ rs₂ h₁ h₂ =>
      (hS₀ b c rs₁ rs₂ h₁ h₂).bind fun a ha => hS a _ ha

/-- Of programs that run at once each has its clients. -/
theorem Hosted.all {S : α → ρ → Prop} {τ : Type} (l : List τ) (p : τ → Program σ α)
    (clients : τ → List (κ × Program σ ρ))
    (hp : ∀ x ∈ l, Hosted R (fun a rs => ∀ r ∈ rs, S a r) (clients x) (p x)) :
    Hosted R (fun as rs => ∀ r ∈ rs, ∃ a ∈ as, S a r) (l.flatMap clients) (all (l.map p)) := by
  induction l with
  | nil => exact .of_keeps trivial nofun
  | cons x l ih =>
    refine .both (hp x (List.mem_cons_self ..)) (ih fun y hy => hp y (List.mem_cons_of_mem _ hy))
      (fun _ _ => trivial) fun a as rs₁ rs₂ h₁ h₂ r hr => ?_
    rcases List.mem_append.1 hr with hr | hr
    · exact ⟨a, List.mem_cons_self .., h₁ r hr⟩
    · obtain ⟨b, hb, hS⟩ := h₂ r hr
      exact ⟨b, List.mem_cons_of_mem _ hb, hS⟩

/-! ### Runs of hosted programs -/

section Amid

variable {S : α → List ρ → Prop} {l : List (κ × Program σ ρ)} {p q : Program σ α}
  (hrefl : ∀ s, R.Outside s s)
  (hserves : ∀ p : Program σ Bool, p.Keeps R.Outside → R.Serves p)

include hrefl hserves

theorem Amid.hosted (hp : Hosted R S l p) (front : List (κ × Program σ ρ))
    (h : Amid R start p moments c q) :
    ∃ l' moments', Hosted R S l' q ∧ l'.map Prod.fst = l.map Prod.fst ∧
      Run R (start.join (front ++ l)) moments' (c.join (front ++ l')) ∧
      Mirrors moments moments' := by
  induction h with
  | start => exact ⟨l, [], hp, rfl, .nil, rfl⟩
  | @others _ _ _ _ a _ hmove hnone ih =>
    obtain ⟨l', moments', hq, hkeys, run, hmirrors⟩ := ih
    exact ⟨l', _, hq, hkeys, run.move (hmove.join hnone _), hmirrors.snoc a a _ _⟩
  | @step _ c _ _ _ _ _ hs ih =>
    obtain ⟨l', moments', hq, hkeys, run, hmirrors⟩ := ih
    obtain ⟨l'', hq', hkeys', hmoves⟩ := hq.step hrefl hserves hs
    obtain ⟨a, hmove⟩ := hmoves (c.clients ++ front) [] c.services
    refine ⟨l'', _, hq', hkeys'.trans hkeys, run.move (a := a) ?_, hmirrors.snoc _ a _ _⟩
    simpa [Crew.join] using hmove

/-- When a program is over, so are all its clients. -/
theorem Amid.hosted_done {xs : List κ} {x : α} (hp : Hosted R S (begun R xs) p)
    (front : List (κ × Program σ ρ)) (h : Amid R start p moments c (.done x)) :
    ∃ ys moments', ys.map Prod.fst = xs ∧ S x (ys.map Prod.snd) ∧
      Run R (start.join (front ++ begun R xs)) moments' (c.join (front ++ finished ys)) ∧
      Mirrors moments moments' := by
  obtain ⟨l', moments', hdone, hkeys, run, hmirrors⟩ := h.hosted hrefl hserves hp front
  obtain ⟨ys, rfl, hS⟩ := hdone.done_inv
  exact ⟨ys, moments', by simpa [finished, begun, Function.comp_def] using hkeys, hS, run,
    hmirrors⟩

end Amid

end Crew

end LspClient
