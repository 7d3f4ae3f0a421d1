import LspClient.Proofs.Program.Crew

/-!
# The last step of a program

`Leaves p W`: whenever a step of `p`, or of what `p` goes on as, is the last one, the states before
and after it and the result satisfy `W`. What is so of the programs of clients, and stays so by
their steps, is so in all runs (`Crew.Run.client_has`), whatever the others do.
-/

namespace LspClient

namespace Program

variable {σ α β : Type}

def Leaves : {α : Type} → Program σ α → (σ → σ → α → Prop) → Prop
  | _, .done _, _ => True
  | _, .await _ step next, W => ∀ s b s', step s = some (b, s') →
      (∀ a, (next b).result? = some a → W s s' a) ∧ Leaves (next b) W
  | _, .spawn _ next, W => (∀ s a, next.result? = some a → W s s a) ∧ Leaves next W
  | _, .both _ _ next, W => ∀ b c,
      (∀ s a, (next b c).result? = some a → W s s a) ∧ Leaves (next b c) W

section Leaves

variable {W : σ → σ → β → Prop}

theorem result?_bind {p : Program σ α} {k : α → Program σ β} {b : β}
    (h : (p >>= k).result? = some b) : ∃ a, p.result? = some a ∧ (k a).result? = some b := by
  cases p with
  | done a => exact ⟨a, rfl, h⟩
  | _ => cases h

/-- The last step of two programs in a row is one of the second, or the last of the first. -/
theorem Leaves.bind {p : Program σ α} {k : α → Program σ β}
    (hp : Leaves p fun s s' a => ∀ b, (k a).result? = some b → W s s' b)
    (hk : ∀ a, Leaves (k a) W) : Leaves (p >>= k) W := by
  change Leaves (p.bind k) W
  have hlast {p : Program σ α} {s s' : σ}
      (hp : ∀ a, p.result? = some a → ∀ b, (k a).result? = some b → W s s' b) (b : β)
      (hb : (p.bind k).result? = some b) : W s s' b :=
    let ⟨a, ha, hb⟩ := result?_bind hb
    hp a ha b hb
  induction p with
  | done a => exact hk a
  | await deadline step next ih =>
    intro s b s' hs
    obtain ⟨hend, hnext⟩ := hp s b s' hs
    exact ⟨hlast hend, ih b hnext hk hlast⟩
  | spawn service next _ ih => exact ⟨fun s => hlast (hp.1 s), ih hp.2 hk hlast⟩
  | both p q next _ _ ih =>
    exact fun b c => ⟨fun s => hlast ((hp b c).1 s), ih b c (hp b c).2 hk hlast⟩

theorem Leaves.await {deadline : Option Nat} {step : σ → Option (β × σ)}
    (h : ∀ s b s', step s = some (b, s') → W s s' b) :
    Leaves (.await deadline step .done) W := by
  intro s b s' hs
  refine ⟨fun a ha => ?_, trivial⟩
  cases ha
  exact h s b s' hs

theorem Leaves.always_bind {deadline : Option Nat} {act : σ → α × σ} {k : α → Program σ β}
    (h : ∀ s b, (k (act s).1).result? = some b → W s (act s).2 b) (hk : ∀ a, Leaves (k a) W) :
    Leaves (Program.await deadline (fun s => some (act s)) .done >>= k) W := by
  refine Leaves.bind (Leaves.await fun s a s' hs b hb => ?_) hk
  obtain ⟨rfl, rfl⟩ : (act s).1 = a ∧ (act s).2 = s' := by
    rw [Option.some.inj hs]
    exact ⟨rfl, rfl⟩
  exact h s b hb

theorem Leaves.step {s s' : σ} {p p' : Program σ β} {started : List (Program σ Bool)}
    (h : Step s p s' p' started) (hp : Leaves p W) :
    (∀ b, p'.result? = some b → W s s' b) ∧ Leaves p' W := by
  cases h with
  | await h => exact hp _ _ _ h
  | spawn => exact ⟨hp.1 _, hp.2⟩
  | left _ => exact ⟨fun _ hb => (by cases hb), hp⟩
  | right _ => exact ⟨fun _ hb => (by cases hb), hp⟩
  | join => exact ⟨(hp _ _).1 _, (hp _ _).2⟩

end Leaves

end Program

namespace Crew

variable {σ κ ρ : Type} {R : Rules σ κ ρ} {start c c' : Crew σ κ ρ} {moments : List (Moment σ)}
  {a : Actor} {k : Nat} {x : κ} {p : Program σ ρ}

/-- A client has just entered, or somebody else moved and it is where it was, or it has taken a
step. -/
theorem Move.client_cases (hmove : Move R c a c') (hk : c'.clients[k]? = some (x, p)) :
    (k = c.clients.length ∧ p = R.program x) ∨ ∃ q, c.clients[k]? = some (x, q) ∧
      (q = p ∧ a ≠ .client k ∨
        a = .client k ∧ ∃ started, Program.Step c.state q c'.state p started) := by
  cases hmove with
  | enter y =>
    rcases Nat.lt_or_ge k c.clients.length with hlt | hge
    · rw [List.getElem?_append_left hlt] at hk
      exact .inr ⟨p, hk, .inl ⟨rfl, fun heq => by cases heq; omega⟩⟩
    · obtain ⟨hlen, heq⟩ := List.getElem?_eq_some_iff.1 hk
      rw [List.length_append, List.length_singleton] at hlen
      obtain rfl : k = c.clients.length := by omega
      rw [List.getElem_concat_length rfl] at heq
      cases heq
      exact .inl ⟨rfl, rfl⟩
  | @client j y q q' s started hj hstep =>
    by_cases hkj : k = j
    · subst hkj
      rw [List.getElem?_set_self (List.getElem?_eq_some_iff.1 hj).1] at hk
      cases hk
      exact .inr ⟨q, hj, .inr ⟨rfl, started, hstep⟩⟩
    · rw [List.getElem?_set_ne (Ne.symm hkj)] at hk
      exact .inr ⟨p, hk, .inl ⟨rfl, fun heq => hkj (Actor.client.inj heq).symm⟩⟩
  | _ => exact .inr ⟨p, hk, .inl ⟨rfl, nofun⟩⟩

/-- A service stands where it stood after a move of somebody else. -/
theorem Move.service_unmoved {body q : Program σ Bool} (hmove : Move R c a c')
    (hk : c.services[k]? = some (body, q)) (ha : a ≠ .service k) :
    c'.services[k]? = some (body, q) := by
  have hlt := (List.getElem?_eq_some_iff.1 hk).1
  cases hmove with
  | serve h => rw [List.getElem?_append_left hlt, hk]
  | client hj hstep => rw [List.getElem?_append_left hlt, hk]
  | service hj hstep =>
    rw [List.getElem?_append_left (by simpa using hlt), List.getElem?_set_ne, hk]
    rintro rfl
    exact ha rfl
  | again hj =>
    rw [List.getElem?_set_ne, hk]
    rintro rfl
    exact ha rfl
  | _ => exact hk

/-- What holds of the programs of clients at their beginnings, and stays so by their steps. -/
theorem Run.client_has {H : κ → Program σ ρ → Prop} (hbegin : ∀ x, H x (R.program x))
    (hstep : ∀ x s s' p p' started, Program.Step s p s' p' started → H x p → H x p')
    (run : Run R start moments c) (hstart : start.clients = [])
    (hk : c.clients[k]? = some (x, p)) : H x p := by
  induction run generalizing p with
  | nil => simp [hstart] at hk
  | move run hmove ih =>
    rcases hmove.client_cases hk with ⟨-, rfl⟩ | ⟨q, hq, ⟨rfl, -⟩ | ⟨-, started, hs⟩⟩
    · exact hbegin x
    · exact ih hq
    · exact hstep x _ _ q p started hs (ih hq)

theorem Run.last_step {W : κ → σ → σ → ρ → Prop} (hprogram : ∀ x, (R.program x).Leaves (W x))
    (run : Run R start moments c) (hstart : start.clients = []) (hmove : Move R c a c') {r : ρ}
    (hbefore : c.clients[k]? = some (x, p)) (hgoing : p.result? = none)
    (hafter : c'.clients[k]? = some (x, .done r)) : W x c.state c'.state r := by
  have hleaves : p.Leaves (W x) :=
    run.client_has (H := fun x p => p.Leaves (W x)) hprogram
      (fun _ _ _ _ _ _ hs hp => (hp.step hs).2) hstart hbefore
  rcases hmove.client_cases hafter with ⟨hk, -⟩ | ⟨q, hq, hcase⟩
  · have hlt := (List.getElem?_eq_some_iff.1 hbefore).1
    omega
  · rw [hbefore] at hq
    cases hq
    rcases hcase with ⟨rfl, -⟩ | ⟨-, started, hs⟩
    · cases hgoing
    · exact (hleaves.step hs).1 r rfl

end Crew

end LspClient
