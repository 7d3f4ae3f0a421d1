import LspClient.Proofs.Program.Leaving

/-!
# Logs

What a run comes to is often said by what has been done in it so far, which the state need not
tell. A log is written beside a run: `Notes c a new` says that `new` is to be written down when `a`
makes a move at the crew `c`. A run with its log can be cut anywhere; the cut that matters to a
client is where it took its first step (`Logged.begun`).
-/

namespace LspClient.Crew

variable {σ κ ρ ι : Type}

/-- The moments of a run, with what was written down at each. -/
abbrev Log (σ ι : Type) := List (Moment σ × List ι)

/-- How many of the moments were moves of one actor. -/
def movesOf (a : Actor) (moments : List (Moment σ)) : Nat := moments.countP fun m => m.actor == a

@[simp] theorem movesOf_append (a : Actor) (moments moments' : List (Moment σ)) :
    movesOf a (moments ++ moments') = movesOf a moments + movesOf a moments' := List.countP_append

@[simp] theorem movesOf_singleton (a : Actor) (m : Moment σ) :
    movesOf a [m] = if m.actor = a then 1 else 0 := by
  simp [movesOf, List.countP_singleton]

namespace Log

def moments (log : Log σ ι) : List (Moment σ) := log.map (·.1)

@[simp] theorem moments_concat (log : Log σ ι) (e : Moment σ × List ι) :
    (log ++ [e]).moments = log.moments ++ [e.1] := List.map_append

/-- All that was written down. -/
def notes (log : Log σ ι) : List ι := log.flatMap (·.2)

@[simp] theorem notes_nil : notes ([] : Log σ ι) = [] := rfl

@[simp] theorem notes_append (log log' : Log σ ι) :
    (log ++ log').notes = log.notes ++ log'.notes := List.flatMap_append

@[simp] theorem notes_cons (m : Moment σ) (new : List ι) (log : Log σ ι) :
    notes ((m, new) :: log) = new ++ log.notes := List.flatMap_cons

/-- What was written down at the moves of one actor. -/
def notesOf (a : Actor) (log : Log σ ι) : List ι := notes (log.filter fun e => e.1.actor == a)

theorem notesOf_append_self (a : Actor) (s s' : σ) (new : List ι) (log : Log σ ι) :
    notesOf a (log ++ [(⟨a, s, s'⟩, new)]) = notesOf a log ++ new := by
  simp [notesOf, notes]

theorem notesOf_append_ne {a a' : Actor} (h : a' ≠ a) (s s' : σ) (new : List ι) (log : Log σ ι) :
    notesOf a (log ++ [(⟨a', s, s'⟩, new)]) = notesOf a log := by
  simp [notesOf, h]

/-- One of the moments of the run led from the one state to the other. -/
def Happened (log : Log σ ι) (s s' : σ) : Prop :=
  ∃ m ∈ log.moments, m.before = s ∧ m.after = s'

theorem Happened.append {log : Log σ ι} {s s' : σ} (h : log.Happened s s') (log' : Log σ ι) :
    (log ++ log').Happened s s' := by
  obtain ⟨m, hm, hs⟩ := h
  exact ⟨m, by simp [moments] at hm ⊢; exact .inl hm, hs⟩

theorem happened_last (m : Moment σ) (new : List ι) (log : Log σ ι) :
    (log ++ [(m, new)]).Happened m.before m.after := ⟨m, by simp [moments], rfl, rfl⟩

end Log

/-- The runs of a crew, with what was written down. -/
inductive Logged (R : Rules σ κ ρ) (Notes : Crew σ κ ρ → Actor → List ι → Prop)
    (start : Crew σ κ ρ) : Log σ ι → Crew σ κ ρ → Prop
  | nil : Logged R Notes start [] start
  | move {log : Log σ ι} {new : List ι} {c c' : Crew σ κ ρ} {a : Actor}
      (run : Logged R Notes start log c) (hmove : Move R c a c') (hnew : Notes c a new) :
      Logged R Notes start (log ++ [(⟨a, c.state, c'.state⟩, new)]) c'

variable {R : Rules σ κ ρ} {Notes : Crew σ κ ρ → Actor → List ι → Prop}
  {start mid c c' : Crew σ κ ρ} {log log' : Log σ ι} {moments : List (Moment σ)}
  {k : Nat} {x : κ} {p q : Program σ ρ}

/-- If something is to be written down at every move, if only nothing, every run has a log. -/
theorem Run.exists_logged (hnotes : ∀ c a, ∃ new, Notes c a new) (run : Run R start moments c) :
    ∃ log : Log σ ι, log.moments = moments ∧ Logged R Notes start log c := by
  induction run with
  | nil => exact ⟨[], rfl, .nil⟩
  | @move moments c c' a _ hmove ih =>
    obtain ⟨log, rfl, h⟩ := ih
    obtain ⟨new, hnew⟩ := hnotes c a
    exact ⟨_, by simp [Log.moments], h.move hmove hnew⟩

theorem Logged.trans (h : Logged R Notes start log mid) (h' : Logged R Notes mid log' c) :
    Logged R Notes start (log ++ log') c := by
  induction h' with
  | nil => rwa [List.append_nil]
  | move _ hmove hnew ih =>
    rw [← List.append_assoc]
    exact ih.move hmove hnew

/-- A client that is there when it makes a move takes a step. -/
theorem Move.client_step (hmove : Move R c (.client k) c') (hk : c.clients[k]? = some (x, p)) :
    ∃ p' s started, Program.Step c.state p s p' started ∧
      c' = ⟨s, c.clients.set k (x, p'), c.services ++ fresh started⟩ := by
  cases hmove with
  | enter y => exact absurd (List.getElem?_eq_some_iff.1 hk).1 (Nat.lt_irrefl _)
  | client hk' hstep =>
    rw [hk] at hk'
    cases hk'
    exact ⟨_, _, _, hstep, rfl⟩

theorem Move.of_client (hmove : Move R c (.client k) c') (hk : c.clients[k]? = some (x, p)) :
    ∃ p' started, Program.Step c.state p c'.state p' started ∧
      c'.clients[k]? = some (x, p') := by
  obtain ⟨p', s, started, hstep, rfl⟩ := hmove.client_step hk
  exact ⟨p', started, hstep, List.getElem?_set_self (List.getElem?_eq_some_iff.1 hk).1⟩

theorem Logged.client_there (h : Logged R Notes start log c)
    (hk : start.clients[k]? = some (x, p)) : ∃ q, c.clients[k]? = some (x, q) := by
  induction h with
  | nil => exact ⟨p, hk⟩
  | move _ hmove _ ih =>
    obtain ⟨q, hq⟩ := ih
    exact hmove.client_stays hq

/-- What holds of a client that is there, and stays so by its own steps and by all moves that leave
it where it is. -/
theorem Logged.client_has {I : Log σ ι → Crew σ κ ρ → Program σ ρ → Prop}
    (hk : start.clients[k]? = some (x, p)) (hstart : I [] start p)
    (hothers : ∀ log c a c' new q, a ≠ .client k → Logged R Notes start log c → I log c q →
      Move R c a c' → Notes c a new → I (log ++ [(⟨a, c.state, c'.state⟩, new)]) c' q)
    (hstep : ∀ log c c' new q q' started, Logged R Notes start log c →
      c.clients[k]? = some (x, q) → I log c q → Program.Step c.state q c'.state q' started →
      Move R c (.client k) c' → Notes c (.client k) new →
      I (log ++ [(⟨.client k, c.state, c'.state⟩, new)]) c' q')
    (h : Logged R Notes start log c) (hq : c.clients[k]? = some (x, q)) : I log c q := by
  induction h generalizing q with
  | nil =>
    rw [hk] at hq
    cases hq
    exact hstart
  | move run hmove hnew ih =>
    rcases hmove.client_cases hq with ⟨hlast, -⟩ | ⟨q', hq', ⟨rfl, ha⟩ | ⟨rfl, started, hs⟩⟩
    · obtain ⟨q', hq'⟩ := run.client_there hk
      exact absurd (List.getElem?_eq_some_iff.1 hq').1 (by omega)
    · exact hothers _ _ _ _ _ _ ha run (ih hq') hmove hnew
    · exact hstep _ _ _ _ _ _ _ run hq' (ih hq') hs hmove hnew

/-- A run that was cut where a client took its first step. -/
inductive Begun (R : Rules σ κ ρ) (Notes : Crew σ κ ρ → Actor → List ι → Prop)
    (start : Crew σ κ ρ) (k : Nat) (x : κ) : Log σ ι → Crew σ κ ρ → Prop
  | intro {begun next c : Crew σ κ ρ} {earlier later : Log σ ι} {new : List ι}
      (hbegun : Logged R Notes start earlier begun)
      (hk : begun.clients[k]? = some (x, R.program x)) (hmove : Move R begun (.client k) next)
      (hnew : Notes begun (.client k) new) (hlater : Logged R Notes next later c) :
      Begun R Notes start k x (earlier ++ (⟨.client k, begun.state, next.state⟩, new) :: later) c

theorem Begun.move {new : List ι} {a : Actor} (h : Begun R Notes start k x log c)
    (hmove : Move R c a c') (hnew : Notes c a new) :
    Begun R Notes start k x (log ++ [(⟨a, c.state, c'.state⟩, new)]) c' := by
  cases h with
  | intro hbegun hk hfirst hnotes hlater =>
    rw [List.append_assoc, List.cons_append]
    exact .intro hbegun hk hfirst hnotes (hlater.move hmove hnew)

/-- A client that entered in the course of a run has not begun yet, or the run can be cut where it
took its first step. -/
theorem Logged.begun (h : Logged R Notes start log c) (hentered : start.clients.length ≤ k)
    (hk : c.clients[k]? = some (x, p)) : p = R.program x ∨ Begun R Notes start k x log c := by
  induction h generalizing p with
  | nil => exact absurd (List.getElem?_eq_some_iff.1 hk).1 (by omega)
  | move run hmove hnew ih =>
    rcases hmove.client_cases hk with ⟨-, rfl⟩ | ⟨q, hq, ⟨rfl, -⟩ | ⟨rfl, -, -⟩⟩
    · exact .inl rfl
    · exact (ih hq).imp_right fun hbegun => hbegun.move hmove hnew
    · rcases ih hq with rfl | hbegun
      · exact .inr (.intro run hq hmove hnew .nil)
      · exact .inr (hbegun.move hmove hnew)

/-! ### Cuts -/

/-- A run, cut at the move from `c₁` to `c₂`. -/
structure Cut (R : Rules σ κ ρ) (Notes : Crew σ κ ρ → Actor → List ι → Prop) (start : Crew σ κ ρ)
    (earlier : Log σ ι) (c₁ : Crew σ κ ρ) (a : Actor) (new : List ι) (c₂ : Crew σ κ ρ)
    (later log : Log σ ι) (c : Crew σ κ ρ) : Prop where
  log_eq : log = earlier ++ (⟨a, c₁.state, c₂.state⟩, new) :: later
  before : Logged R Notes start earlier c₁
  move : Move R c₁ a c₂
  notes : Notes c₁ a new
  after : Logged R Notes c₂ later c

variable {earlier later : Log σ ι} {c₁ c₂ : Crew σ κ ρ} {a : Actor} {new new' : List ι}

theorem Cut.go_on {a' : Actor} (h : Cut R Notes start earlier c₁ a new c₂ later log c)
    (hmove : Move R c a' c') (hnew : Notes c a' new') :
    Cut R Notes start earlier c₁ a new c₂ (later ++ [(⟨a', c.state, c'.state⟩, new')])
      (log ++ [(⟨a', c.state, c'.state⟩, new')]) c' where
  log_eq := by rw [h.log_eq, List.append_assoc, List.cons_append]
  before := h.before
  move := h.move
  notes := h.notes
  after := h.after.move hmove hnew

theorem Cut.logged (h : Cut R Notes start earlier c₁ a new c₂ later log c) :
    Logged R Notes start log c := by
  have hlogged := (h.before.move h.move h.notes).trans h.after
  rwa [List.append_assoc, List.singleton_append, ← h.log_eq] at hlogged

theorem Begun.cut (h : Begun R Notes start k x log c) : ∃ earlier c₁ new c₂ later,
    Cut R Notes start earlier c₁ (.client k) new c₂ later log c ∧
      c₁.clients[k]? = some (x, R.program x) := by
  cases h with
  | intro hbegun hk hmove hnew hlater =>
    exact ⟨_, _, _, _, _, ⟨rfl, hbegun, hmove, hnew, hlater⟩, hk⟩

/-- If there is at most one thing to be written down at each move, a run can be cut at every one
that was. -/
theorem Logged.cut (hone : ∀ c a new, Notes c a new → new.length ≤ 1)
    (h : Logged R Notes start log c) {i : ι} {before after : List ι}
    (hnotes : log.notes = before ++ i :: after) : ∃ earlier c₁ a c₂ later,
      Cut R Notes start earlier c₁ a [i] c₂ later log c ∧ earlier.notes = before ∧
        later.notes = after := by
  induction h generalizing after with
  | nil => simp at hnotes
  | @move log new c c' a run hmove hnew ih =>
    rw [Log.notes_append, Log.notes_cons, Log.notes_nil, List.append_nil] at hnotes
    have hlater {after' : List ι} (hbefore : log.notes = before ++ i :: after')
        (hafter : after' ++ new = after) : ∃ earlier c₁ a' c₂ later,
          Cut R Notes start earlier c₁ a' [i] c₂ later
            (log ++ [(⟨a, c.state, c'.state⟩, new)]) c' ∧
            earlier.notes = before ∧ later.notes = after := by
      obtain ⟨earlier, c₁, a', c₂, later, hcut, hearlier, hlater⟩ := ih hbefore
      exact ⟨_, _, _, _, _, hcut.go_on hmove hnew, hearlier, by simp [hlater, hafter]⟩
    have hlen := hone c a new hnew
    rcases new with _ | ⟨j, _ | ⟨j', rest⟩⟩
    · exact hlater (by simpa using hnotes) (List.append_nil _)
    · rcases List.eq_nil_or_concat after with rfl | ⟨after, l, rfl⟩
      · obtain ⟨rfl, heq⟩ := List.append_inj' hnotes rfl
        cases heq
        exact ⟨_, _, _, _, _, ⟨rfl, run, hmove, hnew, .nil⟩, rfl, rfl⟩
      · rw [List.concat_eq_append, ← List.cons_append, ← List.append_assoc] at hnotes
        obtain ⟨hbefore, heq⟩ := List.append_inj' hnotes rfl
        cases heq
        exact hlater hbefore List.concat_eq_append.symm
    · simp at hlen

/-! ### Two readings of a log -/

/-- What was written down, read in another way. -/
def Log.read {ι' : Type} (f : ι → ι') (log : Log σ ι) : Log σ ι' :=
  log.map fun e => (e.1, e.2.map f)

theorem Log.moments_read {ι' : Type} (f : ι → ι') (log : Log σ ι) :
    (log.read f).moments = log.moments := by
  rw [Log.moments, Log.read, List.map_map]
  rfl

theorem Log.notes_read {ι' : Type} (f : ι → ι') (log : Log σ ι) :
    (log.read f).notes = log.notes.map f := by
  rw [Log.notes, Log.read, List.flatMap_map, Log.notes, List.map_flatMap]

theorem Log.exists_of_read_eq_append {ι' : Type} {f : ι → ι'} {log : Log σ ι} {l l' : Log σ ι'}
    (h : log.read f = l ++ l') :
    ∃ earlier later : Log σ ι, log = earlier ++ later ∧ earlier.read f = l ∧ later.read f = l' :=
  List.map_eq_append_iff.1 h

theorem Log.exists_of_read_eq_cons_nil {ι' : Type} {f : ι → ι'} {log : Log σ ι} {m : Moment σ}
    {l : Log σ ι'} (h : log.read f = (m, []) :: l) :
    ∃ later : Log σ ι, log = (m, []) :: later ∧ later.read f = l := by
  obtain ⟨⟨m', new⟩, later, rfl, hm, hlater⟩ := List.map_eq_cons_iff.1 h
  obtain ⟨rfl, hnew⟩ := Prod.mk.inj hm
  obtain rfl : new = [] := List.map_eq_nil_iff.1 hnew
  exact ⟨later, rfl, hlater⟩

theorem Logged.read {ι' : Type} {Notes' : Crew σ κ ρ → Actor → List ι' → Prop} {f : ι → ι'}
    (hf : ∀ c a new, Notes c a new → Notes' c a (new.map f)) (h : Logged R Notes start log c) :
    Logged R Notes' start (log.read f) c := by
  induction h with
  | nil => exact .nil
  | move _ hmove hnew ih =>
    rw [Log.read, List.map_append]
    exact ih.move hmove (hf _ _ _ hnew)

/-! ### Services -/

/-- What holds of the bodies of services, and goes on to what is left of them and to what they and
the clients start. -/
theorem Run.services_have {H : Program σ Bool → Prop}
    (hserves : ∀ p, R.Serves p → H p)
    (hservice : ∀ s s' p p' started, Program.Step s p s' p' started → H p →
      H p' ∧ ∀ q ∈ started, H q)
    (hclient : ∀ (moments : List (Moment σ)) (c : Crew σ κ ρ) (k : Nat) (x : κ) (p p' : Program σ ρ)
      (s' : σ) (started : List (Program σ Bool)), Run R start moments c →
      c.clients[k]? = some (x, p) → Program.Step c.state p s' p' started → ∀ q ∈ started, H q)
    (run : Run R start moments c) (hstart : ∀ e ∈ start.services, H e.1 ∧ H e.2) :
    ∀ e ∈ c.services, H e.1 ∧ H e.2 := by
  -- what is started stands at its beginning
  have hfresh {started : List (Program σ Bool)} (h : ∀ q ∈ started, H q) :
      ∀ e ∈ fresh started, H e.1 ∧ H e.2 := fun e he => by
    obtain ⟨hmem, heq⟩ := of_mem_fresh he
    exact ⟨h _ hmem, heq ▸ h _ hmem⟩
  induction run with
  | nil => exact hstart
  | move run hmove ih =>
    cases hmove with
    | serve hp => exact List.forall_mem_append.2 ⟨ih, hfresh (by simpa using hserves _ hp)⟩
    | client hk hstep =>
      exact List.forall_mem_append.2 ⟨ih, hfresh (hclient _ _ _ _ _ _ _ _ run hk hstep)⟩
    | service hk hstep =>
      obtain ⟨hbody, hp⟩ := ih _ (List.mem_of_getElem? hk)
      obtain ⟨hp', hstarted⟩ := hservice _ _ _ _ _ hstep hp
      refine List.forall_mem_append.2 ⟨fun e he => ?_, hfresh hstarted⟩
      rcases List.mem_or_eq_of_mem_set he with he | rfl
      · exact ih e he
      · exact ⟨hbody, hp'⟩
    | again hk =>
      obtain ⟨hbody, -⟩ := ih _ (List.mem_of_getElem? hk)
      intro e he
      rcases List.mem_or_eq_of_mem_set he with he | rfl
      · exact ih e he
      · exact ⟨hbody, hbody⟩
    | _ => exact ih

theorem Logged.run (h : Logged R Notes start log c) : Run R start log.moments c := by
  induction h with
  | nil => exact .nil
  | move _ hmove _ ih =>
    rw [Log.moments, List.map_append]
    exact ih.move hmove

end LspClient.Crew
