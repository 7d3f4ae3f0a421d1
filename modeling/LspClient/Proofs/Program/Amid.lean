import LspClient.Proofs.Program.Doing
import LspClient.Proofs.Program.Heeding
import LspClient.Proofs.Program.Playing

/-!
# A program amid a crew

`Amid R start p moments c q` says that `p` was begun amid a crew at `start`, and that by the moves of
the crew and the steps of the program it has come to what is left of it, `q`, amid the crew at `c`.
The services that the program starts join the crew. No clients do: those who take part stand at
their beginnings until they begin.

A program of several parts does them one after the other (`Amid.bind_inv`), and what becomes of the
state on the way can be strung together (`Leads.chain`).
-/

namespace LspClient.Crew

variable {σ κ ρ α β : Type} {R : Rules σ κ ρ} {start c c' : Crew σ κ ρ}
  {moments later : List (Moment σ)} {s s' s'' : σ} {a : Actor}

/-! ### Moments in a row -/

/-- The moments lead from one state to another. -/
inductive Leads (s : σ) : List (Moment σ) → σ → Prop
  | nil : Leads s [] s
  | snoc {moments : List (Moment σ)} {s₁ s₂ : σ} {a : Actor} (h : Leads s moments s₁) :
      Leads s (moments ++ [⟨a, s₁, s₂⟩]) s₂

namespace Leads

theorem append (h : Leads s moments s') (h' : Leads s' later s'') :
    Leads s (moments ++ later) s'' := by
  induction h' with
  | nil => rwa [List.append_nil]
  | snoc _ ih =>
    rw [← List.append_assoc]
    exact ih.snoc

/-- Moments in a row, cut at one of them. -/
theorem split {m : Moment σ} (h : Leads s (moments ++ m :: later) s') :
    Leads s moments m.before ∧ Leads m.after later s' := by
  -- by induction on what follows the moment, from its end
  induction later using List.reverseRecOn generalizing s' with
  | nil =>
    generalize hms : moments ++ [m] = ms at h
    cases h with
    | nil => simp at hms
    | snoc h =>
      obtain ⟨rfl, rfl⟩ := List.append_singleton_inj.1 hms
      exact ⟨h, .nil⟩
  | append_singleton later m' ih =>
    generalize hms : moments ++ m :: (later ++ [m']) = ms at h
    rw [← List.cons_append, ← List.append_assoc] at hms
    cases h with
    | nil => simp at hms
    | snoc h =>
      obtain ⟨rfl, rfl⟩ := List.append_singleton_inj.1 hms
      obtain ⟨hbefore, hafter⟩ := ih h
      exact ⟨hbefore, hafter.snoc⟩

/-- What can be strung together, and holds from before to after every moment, holds from the first
state to all others. -/
theorem chain {G : σ → σ → Prop} (hrefl : ∀ s, G s s)
    (htrans : ∀ s s' s'', G s s' → G s' s'' → G s s'') (h : Leads s moments s')
    (hG : ∀ m ∈ moments, G m.before m.after) :
    G s s' ∧ ∀ m ∈ moments, G s m.before ∧ G s m.after := by
  induction h with
  | nil => exact ⟨hrefl _, nofun⟩
  | snoc h ih =>
    obtain ⟨hstate, hmoments⟩ := ih fun m hm => hG m (List.mem_append_left _ hm)
    have hlast := hG _ (List.mem_append_right _ (List.mem_singleton_self _))
    have hgo := htrans _ _ _ hstate hlast
    refine ⟨hgo, fun m hm => ?_⟩
    rcases List.mem_append.1 hm with hm | hm
    · exact hmoments m hm
    · obtain rfl := List.mem_singleton.1 hm
      exact ⟨hstate, hgo⟩

end Leads

/-! ### Programs -/

inductive Amid (R : Rules σ κ ρ) (start : Crew σ κ ρ) (p : Program σ α) :
    List (Moment σ) → Crew σ κ ρ → Program σ α → Prop
  | start : Amid R start p [] start p
  | others {moments : List (Moment σ)} {c c' : Crew σ κ ρ} {q : Program σ α} {a : Actor}
      (h : Amid R start p moments c q) (hmove : Move R c a c')
      (hnone : c'.clients.length = c.clients.length) :
      Amid R start p (moments ++ [⟨a, c.state, c'.state⟩]) c' q
  | step {moments : List (Moment σ)} {c : Crew σ κ ρ} {q q' : Program σ α} {s : σ}
      {started : List (Program σ Bool)} (h : Amid R start p moments c q)
      (hs : Program.Step c.state q s q' started) :
      Amid R start p (moments ++ [⟨.client c.clients.length, c.state, s⟩])
        ⟨s, c.clients, c.services ++ fresh started⟩ q'

/-- The program stands behind the clients of the crew. -/
def own (c : Crew σ κ ρ) : Actor := .client c.clients.length

theorem Move.ne_own (hmove : Move R c a c') (hnone : c'.clients.length = c.clients.length) :
    a ≠ own c := by
  rintro rfl
  have hlt := hmove.client_lt
  omega

namespace Amid

variable {p q : Program σ α}

theorem leads (h : Amid R start p moments c q) : Leads start.state moments c.state := by
  induction h with
  | start => exact .nil
  | others _ _ _ ih => exact ih.snoc
  | step _ _ ih => exact ih.snoc

theorem length_clients (h : Amid R start p moments c q) :
    c.clients.length = start.clients.length := by
  induction h with
  | start => rfl
  | others _ _ hnone ih => rw [hnone, ih]
  | step _ _ ih => exact ih

theorem own_eq (h : Amid R start p moments c q) : own c = own start := by
  rw [own, own, h.length_clients]

/-- Of two programs in a row the first is under way, or it is over and the second is. -/
theorem of_bind {k : α → Program σ β} {r : Program σ β} (h : Amid R start (p >>= k) moments c r) :
    (∃ q, r = (q >>= k) ∧ Amid R start p moments c q) ∨
      ∃ first c₁ a second, moments = first ++ second ∧ Amid R start p first c₁ (.done a) ∧
        Amid R c₁ (k a) second c r := by
  induction h with
  | start => exact .inl ⟨p, rfl, .start⟩
  | others _ hmove hnone ih =>
    rcases ih with ⟨q, rfl, hq⟩ | ⟨first, c₁, a, second, rfl, hp, hk⟩
    · exact .inl ⟨q, rfl, hq.others hmove hnone⟩
    · exact .inr ⟨first, c₁, a, _, List.append_assoc .., hp, hk.others hmove hnone⟩
  | @step moments c _ _ _ _ _ hs ih =>
    rcases ih with ⟨q, rfl, hq⟩ | ⟨first, c₁, a, second, rfl, hp, hk⟩
    · rcases Program.step_bind hs with ⟨a, rfl, hstep⟩ | ⟨q', rfl, hstep⟩
      · exact .inr ⟨moments, c, a, _, rfl, hq, Amid.start.step hstep⟩
      · exact .inl ⟨q', rfl, hq.step hstep⟩
    · exact .inr ⟨first, c₁, a, _, List.append_assoc .., hp, hk.step hs⟩

theorem bind_inv {k : α → Program σ β} {b : β} (h : Amid R start (p >>= k) moments c (.done b)) :
    ∃ first c₁ a second, moments = first ++ second ∧ Amid R start p first c₁ (.done a) ∧
      Amid R c₁ (k a) second c (.done b) := by
  rcases h.of_bind with ⟨q, heq, hq⟩ | hsplit
  · cases q with
    | done a =>
      have hk : k a = .done b := heq.symm
      exact ⟨moments, c, a, [], (List.append_nil _).symm, hq, hk ▸ .start⟩
    | await => cases heq
    | spawn => cases heq
    | both => cases heq
  · exact hsplit

/-- When the program is over, others may go on. -/
theorem done_append {a : α} {b : β} {r : Program σ β} (hp : Amid R start p moments c (.done a))
    (h : Amid R c (Pure.pure b) later c' r) :
    r = Pure.pure b ∧ Amid R start p (moments ++ later) c' (.done a) := by
  induction h with
  | start => exact ⟨rfl, (List.append_nil moments).symm ▸ hp⟩
  | others _ hmove hnone ih =>
    obtain ⟨rfl, hp⟩ := ih
    exact ⟨rfl, List.append_assoc .. ▸ hp.others hmove hnone⟩
  | step _ hs ih =>
    obtain ⟨rfl, -⟩ := ih
    cases hs

/-- A program whose result is only relabelled is over when the program is. -/
theorem label_inv {f : α → β} {b : β}
    (h : Amid R start (p >>= fun a => Pure.pure (f a)) moments c (.done b)) :
    ∃ a, b = f a ∧ Amid R start p moments c (.done a) := by
  obtain ⟨first, c₁, a, second, rfl, hp, hend⟩ := h.bind_inv
  obtain ⟨heq, hp⟩ := hp.done_append hend
  cases heq
  exact ⟨a, rfl, hp⟩

/-! ### Scripts -/

section Script

variable {Act : Type} {Answer : Act → Type} {performed : (o : Act) → Program σ (Answer o)} {b : β}

theorem run_bind_inv {p : Script σ Act Answer α} {k : α → Script σ Act Answer β}
    (h : Amid R start ((p >>= k).run performed) moments c (.done b)) :
    ∃ first c₁ a second, moments = first ++ second ∧
      Amid R start (p.run performed) first c₁ (.done a) ∧
      Amid R c₁ ((k a).run performed) second c (.done b) := by
  rw [Program.run_bind] at h
  exact h.bind_inv

theorem lift_bind_inv {p : Program σ α} {k : α → Script σ Act Answer β}
    (h : Amid R start ((Script.lift p >>= k).run performed) moments c (.done b)) :
    ∃ first c₁ a second, moments = first ++ second ∧ Amid R start p first c₁ (.done a) ∧
      Amid R c₁ ((k a).run performed) second c (.done b) :=
  bind_inv (p := p) (k := fun a => (k a).run performed) h

theorem perform_bind_inv {o : Act} {k : Answer o → Script σ Act Answer β}
    (h : Amid R start ((Script.perform o >>= k).run performed) moments c (.done b)) :
    ∃ first c₁ a second, moments = first ++ second ∧ Amid R start (performed o) first c₁ (.done a) ∧
      Amid R c₁ ((k a).run performed) second c (.done b) :=
  bind_inv (p := performed o) (k := fun a => (k a).run performed) h

end Script

/-- What the program itself does. -/
theorem does (h : Amid R start p moments c q) : Does (own start) p moments q := by
  induction h with
  | start => exact .start
  | others h hmove hnone ih => exact ih.others (h.own_eq ▸ hmove.ne_own hnone)
  | step h hs ih =>
    have hown := h.own_eq
    rw [own] at hown
    rw [hown]
    exact ih.step hs

/-- If all steps of the program are alike, and so are all that others take, all moments are. -/
theorem keeps {G : σ → σ → Prop} (hG : ∀ s, G s s) (hp : p.Keeps G)
    (h : Amid R start p moments c q)
    (hothers : ∀ m ∈ moments, m.actor ≠ own start → G m.before m.after) :
    ∀ m ∈ moments, G m.before m.after := by
  intro m hm
  by_cases hown : m.actor = own start
  · exact (h.does.keeps hG hp).1 m hm hown
  · exact hothers m hm hown

theorem alongside {ι : Type} {begin : ι → Program σ α} {as : List ι} {r : Program σ (List α)}
    (h : Amid R start (Program.all (as.map begin)) moments c r) :
    Program.Alongside (fun _ _ => True) begin start.state c.state as r := by
  induction h with
  | start => exact Program.alongside_all as
  | others _ _ _ ih => exact ih.others trivial
  | step _ hs ih => exact ih.step hs trivial

theorem results {Q : α → Prop} (hp : p.Results Q) (h : Amid R start p moments c q) :
    q.Results Q := by
  induction h with
  | start => exact hp
  | others _ _ _ ih => exact ih
  | step _ hs ih => exact hs.results ih

/-! ### Playing a program -/

/-- Take the steps of the program, where nobody is chosen, and the chosen moves of the crew, except
those that cannot be made. -/
def play : List (Option (Choice R)) → List (Moment σ) × Crew σ κ ρ × Program σ α →
    List (Moment σ) × Crew σ κ ρ × Program σ α
  | [], r => r
  | none :: rest, (moments, c, q) =>
    match q.step? c.state with
    | some (s, q', started) =>
      play rest
        (moments ++ [⟨own c, c.state, s⟩], ⟨s, c.clients, c.services ++ fresh started⟩, q')
    | none => play rest (moments, c, q)
  | some choice :: rest, (moments, c, q) =>
    match choice.next? c with
    | some (a, c') =>
      if c'.clients.length = c.clients.length then
        play rest (moments ++ [⟨a, c.state, c'.state⟩], c', q)
      else play rest (moments, c, q)
    | none => play rest (moments, c, q)

theorem of_play (turns : List (Option (Choice R))) (h : Amid R start p moments c q) :
    Amid R start p (play turns (moments, c, q)).1 (play turns (moments, c, q)).2.1
      (play turns (moments, c, q)).2.2 := by
  induction turns generalizing moments c q with
  | nil => exact h
  | cons turn rest ih =>
    cases turn with
    | none =>
      rw [play]
      split
      · next hstep => exact ih (h.step (Program.step_of_step? hstep))
      · exact ih h
    | some choice =>
      rw [play]
      split
      · next hnext =>
        split
        · next hnone => exact ih (h.others (Choice.move_of_next? hnext) hnone)
        · exact ih h
      · exact ih h

theorem of_play_done (turns : List (Option (Choice R))) {a : α}
    (h : (play turns ([], start, p)).2.2.result? = some a) :
    Amid R start p (play turns ([], start, p)).1 (play turns ([], start, p)).2.1 (.done a) :=
  Program.eq_done_of_result? h ▸ of_play turns .start

end Amid

end LspClient.Crew
