import LspClient.Proofs.Program.Crew

/-!
# Playing a run

A run is played by choosing its moves one after another. What was chosen and cannot be made is
passed over (`run_play`), and so is what would lead to a crew that is not wanted (`runIn_playIn`).
-/

namespace LspClient.Crew

variable {σ κ ρ : Type} {R : Rules σ κ ρ}

/-- A choice among the moves of a crew. -/
inductive Choice (R : Rules σ κ ρ) where
  | enter (a : κ)
  | serve (p : Program σ Bool) (h : R.Serves p)
  | client (k : Nat)
  | service (k : Nat)
  | outside (f : σ → σ) (h : ∀ s, R.Outside s (f s))

/-- The move that was chosen, if it can be made. -/
def Choice.next? (c : Crew σ κ ρ) : Choice R → Option (Actor × Crew σ κ ρ)
  | .enter a =>
    some (.client c.clients.length, { c with clients := c.clients ++ [(a, R.program a)] })
  | .serve p _ =>
    some (.service c.services.length, { c with services := c.services ++ fresh [p] })
  | .client k =>
    match c.clients[k]? with
    | some (a, p) => (p.step? c.state).map fun (s, p', started) =>
      (.client k, ⟨s, c.clients.set k (a, p'), c.services ++ fresh started⟩)
    | none => none
  | .service k =>
    match c.services[k]? with
    | some (body, .done true) =>
      some (.service k, { c with services := c.services.set k (body, body) })
    | some (body, p) => (p.step? c.state).map fun (s, p', started) =>
      (.service k, ⟨s, c.clients, c.services.set k (body, p') ++ fresh started⟩)
    | none => none
  | .outside f _ => some (.outside, { c with state := f c.state })

theorem Choice.move_of_next? {c c' : Crew σ κ ρ} {a : Actor} {choice : Choice R}
    (h : choice.next? c = some (a, c')) : Move R c a c' := by
  cases choice with
  | enter x =>
    cases h
    exact .enter c x
  | serve p hp =>
    cases h
    exact .serve c hp
  | client k =>
    rw [next?] at h
    split at h
    · next x p hk =>
      obtain ⟨⟨s, p', started⟩, hstep, heq⟩ := Option.map_eq_some_iff.1 h
      cases heq
      exact .client hk (Program.step_of_step? hstep)
    · cases h
  | service k =>
    rw [next?] at h
    split at h
    · next body hk =>
      cases h
      exact .again hk
    · next body p _ hk =>
      obtain ⟨⟨s, p', started⟩, hstep, heq⟩ := Option.map_eq_some_iff.1 h
      cases heq
      exact .service hk (Program.step_of_step? hstep)
    · cases h
  | outside f hf =>
    cases h
    exact .outside (hf c.state)

/-- Make the chosen moves, except those that cannot be made. -/
def play : List (Choice R) → List (Moment σ) × Crew σ κ ρ → List (Moment σ) × Crew σ κ ρ
  | [], r => r
  | choice :: rest, (moments, c) =>
    match choice.next? c with
    | some (a, c') => play rest (moments ++ [⟨a, c.state, c'.state⟩], c')
    | none => play rest (moments, c)

theorem run_play {start : Crew σ κ ρ} (choices : List (Choice R)) {moments : List (Moment σ)}
    {c : Crew σ κ ρ} (run : Run R start moments c) :
    Run R start (play choices (moments, c)).1 (play choices (moments, c)).2 := by
  induction choices generalizing moments c with
  | nil => exact run
  | cons choice rest ih =>
    rw [play]
    split
    · next h => exact ih (run.move (Choice.move_of_next? h))
    · exact ih run

/-- Make the chosen moves, except those that cannot be made, or lead to a crew that is not to be. -/
def playIn (Φ : Crew σ κ ρ → Prop) [DecidablePred Φ] :
    List (Choice R) → List (Moment σ) × Crew σ κ ρ → List (Moment σ) × Crew σ κ ρ
  | [], r => r
  | choice :: rest, (moments, c) =>
    match choice.next? c with
    | some (a, c') =>
      if Φ c' then playIn Φ rest (moments ++ [⟨a, c.state, c'.state⟩], c')
      else playIn Φ rest (moments, c)
    | none => playIn Φ rest (moments, c)

theorem runIn_playIn {Φ : Crew σ κ ρ → Prop} [DecidablePred Φ] {start : Crew σ κ ρ}
    (choices : List (Choice R)) {moments : List (Moment σ)} {c : Crew σ κ ρ}
    (run : RunIn R Φ start moments c) :
    RunIn R Φ start (playIn Φ choices (moments, c)).1 (playIn Φ choices (moments, c)).2 := by
  induction choices generalizing moments c with
  | nil => exact run
  | cons choice rest ih =>
    rw [playIn]
    split
    · next a c' h =>
      split
      · next hc' => exact ih (run.move (Choice.move_of_next? h) hc')
      · exact ih run
    · exact ih run

end LspClient.Crew
