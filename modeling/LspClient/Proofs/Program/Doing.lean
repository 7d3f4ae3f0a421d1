import LspClient.Proofs.Program.Crew
import LspClient.Proofs.Program.Ends

/-!
# What one of many does

`Does a p moments q` says that in its moments among `moments` the actor `a` has come from the
program `p` to what is left of it, `q`. Nothing is said about the other moments. A program of several
parts does them one after the other (`Does.bind_inv`), and each part has moments of its own.
-/

namespace LspClient.Crew

variable {σ κ ρ α β : Type} {R : Rules σ κ ρ} {start c : Crew σ κ ρ}
  {moments later : List (Moment σ)} {m : Moment σ} {a : Actor} {p q : Program σ α}

/-- None of the moments is one of the actor. -/
def Silent (a : Actor) (moments : List (Moment σ)) : Prop := ∀ m ∈ moments, m.actor ≠ a

theorem silent_nil : Silent a ([] : List (Moment σ)) := nofun

theorem Silent.append (h : Silent a moments) (h' : Silent a later) :
    Silent a (moments ++ later) :=
  fun m hm => (List.mem_append.1 hm).elim (h m) (h' m)

theorem Silent.snoc (h : Silent a moments) (hm : m.actor ≠ a) : Silent a (moments ++ [m]) :=
  h.append fun _ hm' => List.mem_singleton.1 hm' ▸ hm

inductive Does (a : Actor) (p : Program σ α) : List (Moment σ) → Program σ α → Prop
  | start : Does a p [] p
  | others {moments : List (Moment σ)} {m : Moment σ} {q : Program σ α} (h : Does a p moments q)
      (hm : m.actor ≠ a) : Does a p (moments ++ [m]) q
  | step {moments : List (Moment σ)} {q q' : Program σ α} {s s' : σ}
      {started : List (Program σ Bool)} (h : Does a p moments q)
      (hs : Program.Step s q s' q' started) : Does a p (moments ++ [⟨a, s, s'⟩]) q'

namespace Does

/-- Nothing is done after the end. -/
theorem done_inv {x : α} (h : Does a (.done x) moments q) : q = .done x ∧ Silent a moments := by
  induction h with
  | start => exact ⟨rfl, silent_nil⟩
  | others _ hm ih => exact ⟨ih.1, ih.2.snoc hm⟩
  | step _ hs ih =>
    rw [ih.1] at hs
    cases hs

theorem pure_inv {x y : α} (h : Does a (Pure.pure x) moments (.done y)) :
    y = x ∧ Silent a moments := by
  obtain ⟨hdone, hsilent⟩ := h.done_inv
  cases hdone
  exact ⟨rfl, hsilent⟩

/-- Moments of others may follow. -/
theorem silent (h : Does a p moments q) (hlater : Silent a later) :
    Does a p (moments ++ later) q := by
  induction later using List.reverseRecOn with
  | nil => rwa [List.append_nil]
  | append_singleton later m ih =>
    rw [← List.append_assoc]
    exact (ih fun m hm => hlater m (List.mem_append_left _ hm)).others
      (hlater m (List.mem_append_right _ (List.mem_singleton_self m)))

/-- Of two programs in a row the first is under way, or it is over and the second is. -/
theorem of_bind {k : α → Program σ β} {r : Program σ β} (h : Does a (p >>= k) moments r) :
    (∃ q, r = (q >>= k) ∧ Does a p moments q) ∨
      ∃ first x second, moments = first ++ second ∧ Does a p first (.done x) ∧
        Does a (k x) second r := by
  induction h with
  | start => exact .inl ⟨p, rfl, .start⟩
  | others _ hm ih =>
    rcases ih with ⟨q, rfl, hq⟩ | ⟨first, x, second, rfl, hp, hk⟩
    · exact .inl ⟨q, rfl, hq.others hm⟩
    · exact .inr ⟨first, x, _, List.append_assoc .., hp, hk.others hm⟩
  | @step moments _ _ _ _ _ _ hs ih =>
    rcases ih with ⟨q, rfl, hq⟩ | ⟨first, x, second, rfl, hp, hk⟩
    · rcases Program.step_bind hs with ⟨x, rfl, hstep⟩ | ⟨q', rfl, hstep⟩
      · exact .inr ⟨moments, x, _, rfl, hq, Does.start.step hstep⟩
      · exact .inl ⟨q', rfl, hq.step hstep⟩
    · exact .inr ⟨first, x, _, List.append_assoc .., hp, hk.step hs⟩

theorem bind_inv {k : α → Program σ β} {y : β} (h : Does a (p >>= k) moments (.done y)) :
    ∃ first x second, moments = first ++ second ∧ Does a p first (.done x) ∧
      Does a (k x) second (.done y) := by
  rcases h.of_bind with ⟨q, heq, hq⟩ | hsplit
  · cases q with
    | done x =>
      have hk : k x = .done y := heq.symm
      exact ⟨moments, x, [], (List.append_nil _).symm, hq, hk ▸ .start⟩
    | await => cases heq
    | spawn => cases heq
    | both => cases heq
  · exact hsplit

/-- A wait is over with its step, which is the only moment of the actor. -/
theorem await_inv {deadline : Option Nat} {step : σ → Option (α × σ)} {x : α}
    (h : Does a (.await deadline step .done) moments (.done x)) :
    ∃ before m after, moments = before ++ m :: after ∧ Silent a before ∧ Silent a after ∧
      m.actor = a ∧ step m.before = some (x, m.after) := by
  generalize hq : Program.done x = q at h
  have hcases : (q = .await deadline step .done ∧ Silent a moments) ∨
      ∃ x, q = .done x ∧ ∃ before m after, moments = before ++ m :: after ∧ Silent a before ∧
        Silent a after ∧ m.actor = a ∧ step m.before = some (x, m.after) := by
    clear hq
    induction h with
    | start => exact .inl ⟨rfl, silent_nil⟩
    | others _ hm ih =>
      refine ih.imp (fun h => ⟨h.1, h.2.snoc hm⟩) ?_
      rintro ⟨x, rfl, before, m', after, rfl, hbefore, hafter, hm'⟩
      exact ⟨x, rfl, before, m', _, by rw [List.append_assoc, List.cons_append], hbefore,
        hafter.snoc hm, hm'⟩
    | @step moments q q' s s' started hq hs ih =>
      rcases ih with ⟨rfl, hsilent⟩ | ⟨x, rfl, -⟩
      · cases hs with
        | await hs => exact .inr ⟨_, rfl, moments, _, [], rfl, hsilent, silent_nil, rfl, hs⟩
      · cases hs
  rcases hcases with ⟨heq, -⟩ | ⟨y, heq, hstep⟩
  · cases hq.trans heq
  · cases hq.trans heq
    exact hstep

theorem act_inv {step : σ → α × σ} {x : α}
    (h : Does a (Program.act step) moments (.done x)) :
    ∃ before m after, moments = before ++ m :: after ∧ Silent a before ∧ Silent a after ∧
      m.actor = a ∧ step m.before = (x, m.after) := by
  obtain ⟨before, m, after, hms, hbefore, hafter, hm, hs⟩ := h.await_inv
  exact ⟨before, m, after, hms, hbefore, hafter, hm, Option.some.inj hs⟩

/-- What an actor sees, it sees before one of its moments. -/
theorem look_inv {view : σ → α} {x : α} (h : Does a (Program.look view) moments (.done x)) :
    ∃ m ∈ moments, m.actor = a ∧ x = view m.before := by
  obtain ⟨before, m, after, rfl, -, -, hm, hs⟩ := h.act_inv
  exact ⟨m, List.mem_append_right _ (List.mem_cons_self ..), hm, (Prod.mk.inj hs).1.symm⟩

/-- The moments of a program all of whose steps are alike. -/
theorem keeps {G : σ → σ → Prop} (hG : ∀ s, G s s) (hp : p.Keeps G) (h : Does a p moments q) :
    (∀ m ∈ moments, m.actor = a → G m.before m.after) ∧ q.Keeps G := by
  induction h with
  | start => exact ⟨nofun, hp⟩
  | others _ hm ih =>
    refine ⟨fun m' hm' ha => ?_, ih.2⟩
    rcases List.mem_append.1 hm' with hm' | hm'
    · exact ih.1 m' hm' ha
    · obtain rfl := List.mem_singleton.1 hm'
      exact absurd ha hm
  | step _ hs ih =>
    obtain ⟨hstep, hq', -⟩ := ih.2.step hG hs
    refine ⟨fun m' hm' ha => ?_, hq'⟩
    rcases List.mem_append.1 hm' with hm' | hm'
    · exact ih.1 m' hm' ha
    · obtain rfl := List.mem_singleton.1 hm'
      exact hstep

end Does

/-! ### What is left as it is -/

/-- What the actor does leaves a part of the state as it is. -/
def Leaves (a : Actor) (f : σ → β) (moments : List (Moment σ)) : Prop :=
  ∀ m ∈ moments, m.actor = a → f m.after = f m.before

section Leaves

variable {f : σ → β} {γ : Type}

theorem Silent.leaves (h : Silent a moments) : Leaves a f moments :=
  fun m hm ha => absurd ha (h m hm)

theorem Leaves.append (h : Leaves a f moments) (h' : Leaves a f later) :
    Leaves a f (moments ++ later) :=
  fun m hm => (List.mem_append.1 hm).elim (h m) (h' m)

theorem Leaves.cons (hm : m.actor = a → f m.after = f m.before) (h : Leaves a f moments) :
    Leaves a f (m :: moments) :=
  List.forall_mem_cons.2 ⟨hm, h⟩

theorem Leaves.of_eq {g : σ → γ} (h : Leaves a f moments)
    (hg : ∀ s s', f s' = f s → g s' = g s) : Leaves a g moments :=
  fun m hm ha => hg _ _ (h m hm ha)

theorem Does.leaves (h : Does a p moments q) (hp : p.Keeps fun s s' => f s' = f s) :
    Leaves a f moments := (h.keeps (G := fun s s' => f s' = f s) (fun _ => rfl) hp).1

/-- What one actor leaves as it is, and the others too, is at the end as it was. -/
theorem Leaves.eq (h : Leaves a f moments) (run : Run R start moments c)
    (hothers : ∀ m ∈ moments, m.actor ≠ a → f m.after = f m.before) :
    f c.state = f start.state := by
  refine (run.chain (G := fun s s' => f s' = f s) (fun _ => rfl)
    (fun _ _ _ h h' => h'.trans h) fun m hm => ?_).1
  by_cases ha : m.actor = a
  · exact h m hm ha
  · exact hothers m hm ha

end Leaves

/-- What a client of a crew does in a run. -/
theorem Run.does {k : Nat} {x : κ} {p : Program σ ρ} (run : Run R start moments c)
    (hk : start.clients[k]? = some (x, p)) :
    ∃ q, c.clients[k]? = some (x, q) ∧ Does (.client k) p moments q := by
  induction run with
  | nil => exact ⟨p, hk, .start⟩
  | move run hmove ih =>
    obtain ⟨q, hq, hdoes⟩ := ih
    have hlt := (List.getElem?_eq_some_iff.1 hq).1
    cases hmove with
    | enter y =>
      refine ⟨q, by rw [List.getElem?_append_left hlt, hq], hdoes.others fun heq => ?_⟩
      cases heq
      exact Nat.lt_irrefl _ hlt
    | @client j y r r' s started hj hstep =>
      by_cases hjk : j = k
      · subst hjk
        rw [hq] at hj
        cases hj
        exact ⟨r', List.getElem?_set_self hlt, hdoes.step hstep⟩
      · refine ⟨q, by rw [List.getElem?_set_ne hjk, hq], hdoes.others fun heq => ?_⟩
        cases heq
        exact hjk rfl
    | _ => exact ⟨q, hq, hdoes.others nofun⟩

end LspClient.Crew
