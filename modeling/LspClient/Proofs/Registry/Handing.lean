import LspClient.Proofs.Program.Leaving
import LspClient.Proofs.Registry.Keys

/-!
# Connections that are handed out

A caller that finds a connection in its slot gets one that is alive. A caller that has waited gets
what its creation has told, and nobody looks again: the connection was alive when the creation made
sure of it, and may have ended since then (`handed_out`).

What a creation has made sure of is the stage of a second discipline (`sighting`): a connector may
give only a connection that it knew, and then found alive (`Vouches`). Launching a server does so
where it tells the server that the handshake is over (`vouches_launch`).
-/

namespace LspClient.Registry

open Program Crew
open World (Inside)

variable {ε α : Type} {connect : Connector ε} {w w' : World ε} {moments : Moments ε}
  {c c' : Crew (World ε) Ask Outcome} {a : Actor} {x : Ask}

/-! ### What one has seen -/

/-- The connections that one knows of, and those that one has found alive. -/
structure Sight where
  known : List Nat
  alive : List Nat

/-- One learns of connections that there are, finds those alive that one knows of, and tells only
of those that one has found alive. -/
structure Sees (w w' : World ε) (v v' : Sight) : Prop where
  distinct : Distinct w.registry → Distinct w'.registry
  length_le : w.connections.length ≤ w'.connections.length
  known : ∀ i ∈ v'.known, i ∈ v.known ∨ i < w'.connections.length
  alive : ∀ i ∈ v'.alive, i ∈ v.alive ∨ i ∈ v.known ∧ (w.connection i).isAlive = true
  told : ∀ g i, w'.registry.outcomes.get? g = some (.ok i) →
    w.registry.outcomes.get? g = some (.ok i) ∨ i ∈ v.alive

/-- A step that tells nothing. -/
theorem Sees.silent {v : Sight} (hd : Distinct w.registry → Distinct w'.registry)
    (hlen : w.connections.length ≤ w'.connections.length)
    (hout : w'.registry.outcomes = w.registry.outcomes) : Sees w w' v v :=
  ⟨hd, hlen, fun _ h => .inl h, fun _ h => .inl h, fun _ _ h => .inl (hout ▸ h)⟩

def sighting (ε : Type) : Discipline (World ε) Sight where
  Inv w := Distinct w.registry
  Acts v w w' v' := Sees w w' v v'
  idle := ⟨[], []⟩
  inv_of_acts h hsees := hsees.distinct h
  acts_self _ := .silent (fun h => h) (Nat.le_refl _) rfl

/-- A connector gives only a connection that it has found alive. -/
def Vouches (connect : Connector ε) : Prop :=
  ∀ name config cwd, Follows (sighting ε) (connect name config cwd) ⟨[], []⟩ fun v r =>
    ∀ i, r = .ok i → i ∈ v.alive

theorem sighting_of_inside {p : Work ε α} {v : Sight} (h : Keeps Inside p) :
    Follows (sighting ε) p v fun v' _ => v' = v :=
  (h.mono fun _ _ hw _ _ =>
    Sees.silent (fun h => hw.1 ▸ h) (Nat.le_of_eq hw.2.symm) (by rw [hw.1])).follows

/-- Those who take connections down tell nothing. -/
theorem sighting_of_neutral (h : (discipline connect).Neutral w w') :
    (sighting ε).Neutral w w' := by
  intro hinv v
  cases h hinv ⟨none, .none, []⟩ with
  | trim ht hlen => exact .silent ht.distinct (Nat.le_of_eq hlen.symm) ht.outcomes

/-- What a caller does, or a creation that has nothing to tell yet. -/
theorem sighting_of_acts {st st' : Stage} {v : Sight} (h : Acts w w' st st')
    (hrole : ∀ g r, st.role ≠ .ends g r) : Sees w w' v v := by
  refine .silent h.distinct h.length_le ?_
  rcases h.outcomes with heq | ⟨y, g, r, opened, rfl, -, -⟩
  · exact heq
  · exact absurd rfl (hrole g r)

theorem sighting_locked (connect : Connector ε) {f : World ε → α × World ε} (st : Stage) {v : Sight}
    {Q : Stage → α → Prop} (hrole : ∀ g r, st.role ≠ .ends g r)
    (h : Follows (discipline connect) (locked f) st Q) :
    Follows (sighting ε) (locked f) v fun v' _ => v' = v := by
  refine Follows.locked fun w hinv => ?_
  obtain ⟨st', hacts, -⟩ := h w (f w).1 (f w).2 hinv rfl
  exact ⟨v, sighting_of_acts hacts hrole, rfl⟩

/-! ### Launching a server -/

theorem sighting_connection {i : Nat} {v : Sight} (hi : i ∈ v.known) :
    Follows (sighting ε) (Work.connection i) v fun v' c =>
      v'.known = v.known ∧ (c.isAlive = true → i ∈ v'.alive) := by
  refine Follows.act fun w _ => ?_
  cases halive : (w.connection i).isAlive with
  | false => exact ⟨v, .silent (fun h => h) (Nat.le_refl _) rfl, rfl, by simp⟩
  | true =>
    refine ⟨⟨v.known, i :: v.alive⟩, ⟨fun h => h, Nat.le_refl _, fun _ h => .inl h, ?_,
      fun _ _ h => .inl h⟩, rfl, fun _ => List.mem_cons_self ..⟩
    intro j hj
    rcases List.mem_cons.1 hj with rfl | hj
    · exact .inr ⟨hi, halive⟩
    · exact .inl hj

/-- Whoever may send a notification has found the connection alive. -/
theorem sighting_notify {i : Nat} {v : Sight} {method : String} {params : Option Json}
    (hmethod : method ∉ Document.methods) (hi : i ∈ v.known) :
    Follows (sighting ε) (Connection.notify i method params) v fun v' r =>
      r = .ok () → i ∈ v'.alive := by
  refine (sighting_connection hi).bind fun v' c hv' => ?_
  unfold Connection.usable
  cases halive : c.isAlive with
  | false => exact nofun
  | true =>
    refine (sighting_of_inside (Connection.parts_inside.tell hmethod)).mono fun v'' r hv'' _ => ?_
    subst hv''
    exact hv'.2 halive

theorem sighting_shakeHands {i : Nat} {v : Sight} {options settings : Option Json} {token : Token}
    (hi : i ∈ v.known) :
    Follows (sighting ε) (Connection.shakeHands i options settings token) v fun v' r =>
      r = .ok () → i ∈ v'.alive := by
  refine (sighting_of_inside (Keeps.look fun _ => ⟨rfl, rfl⟩)).bind fun v' c hv' => ?_
  subst hv'
  split
  · exact nofun
  refine (sighting_of_inside Connection.parts_inside.request).bind fun v' r hv' => ?_
  subst hv'
  match r with
  | .error e => exact nofun
  | .ok result =>
    refine (sighting_of_inside (Connection.keeps_updateConnection _)).bind fun v' _ hv' => ?_
    subst hv'
    refine (sighting_notify (by decide) hi).bind fun v' r hv' => ?_
    match r with
    | .error e => exact nofun
    | .ok () =>
      refine (sighting_of_inside Connection.parts_inside.tellConfiguration).bind
        fun v'' _ hv'' => ?_
      subst hv''
      exact hv'

theorem sighting_establish {i : Nat} {v : Sight} {config : ServerConfig} (hi : i ∈ v.known) :
    Follows (sighting ε) (Connection.establish i config) v fun v' r =>
      ∀ j, r = .ok j → j ∈ v'.alive := by
  refine (sighting_shakeHands hi).bind fun v' r hv' => ?_
  match r with
  | .ok () =>
    intro j hj
    cases hj
    exact hv' rfl
  | .error e =>
    exact (sighting_of_inside Connection.parts_inside.shutdown).bind fun _ _ _ => nofun

theorem sighting_streams {i : Nat} {v : Sight} (hi : i ∈ v.known) : Follows (sighting ε) (do
    start (Connection.writer i)
    start (Connection.reader i)
    return i) v fun v' j => j ∈ v'.known := by
  have hrest {p : Work ε Bool} (h : Keeps Inside p) :
      Follows (sighting ε) p ⟨[], []⟩ (sighting ε).AtRest :=
    (sighting_of_inside h).mono fun _ _ hv => by
      subst hv
      exact (sighting ε).atRest_idle _
  exact .inl ⟨hrest Connection.writer_inside,
    .inl ⟨hrest Connection.reader_inside, hi⟩⟩

theorem sighting_start {options : ConnectionOptions} {input output : Nat}
    {process : Option Running} {v : Sight} : Follows (sighting ε)
      (Connection.start options input output process) v fun v' i => i ∈ v'.known := by
  have hopen (f : World ε → Connection) : Follows (sighting ε)
      (act fun w => (w.connections.length, { w with connections := w.connections ++ [f w] }))
      v fun v' i => i ∈ v'.known := by
    refine Follows.act fun w _ => ⟨⟨[w.connections.length], v.alive⟩, ⟨fun h => h, by simp,
      fun i hi => .inr ?_, fun _ h => .inl h, fun _ _ h => .inl h⟩, List.mem_singleton_self _⟩
    obtain rfl := List.mem_singleton.1 hi
    simp
  cases process with
  | none => exact (hopen _).bind fun v' i hi => sighting_streams hi
  | some p =>
    refine (hopen _).bind fun v' i hi => ?_
    refine (sighting_of_inside (Keeps.start Connection.parts_inside.errorReader)).bind
      fun v'' _ hv'' => ?_
    subst hv''
    exact sighting_streams hi

/-- A server that is launched was alive when the handshake was over. -/
theorem vouches_launch {machine : Machine ε}
    (hmachine : ∀ name invocation, Keeps Inside (machine name invocation)) (timeout : Nat) :
    Vouches (Server.launch machine timeout) := by
  intro name config cwd
  refine (sighting_of_inside (Keeps.look fun _ => ⟨rfl, rfl⟩)).bind fun v r hv => ?_
  subst hv
  split
  · exact nofun
  refine (sighting_of_inside (inside_start hmachine _ _ _)).bind fun v r hv => ?_
  subst hv
  match r with
  | .error e => exact nofun
  | .ok running => exact sighting_start.bind fun v i hi => sighting_establish hi

/-! ### Creations and callers -/

theorem sighting_tellWaiting {g : Nat} {r : Outcome} {v : Sight}
    (hr : ∀ i, r = .ok i → i ∈ v.alive) :
    Follows (sighting ε) (tellWaiting g r) v fun v' _ => v' = v := by
  refine Follows.act fun w _ => ⟨v, ⟨fun h => h, Nat.le_refl _, fun _ h => .inl h,
    fun _ h => .inl h, fun g' i hi => ?_⟩, rfl⟩
  change (w.registry.outcomes.put g r).get? g' = some (.ok i) at hi
  by_cases hg : g = g'
  · subst hg
    rw [Table.get?_put_self] at hi
    exact .inr (hr i (Option.some.inj hi))
  · rw [Table.get?_put_ne _ _ hg] at hi
    exact .inl hi

theorem sighting_of_keeps (connect : Connector ε) {p : Work ε α} {v : Sight}
    (h : Keeps (discipline connect).Neutral p) : Follows (sighting ε) p v fun v' _ => v' = v :=
  (h.mono fun _ _ => sighting_of_neutral).follows

theorem sighting_settle (connect : Connector ε) {g : Nat} {created : Outcome} {v : Sight} :
    Follows (sighting ε) (locked (step fun r => r.settle x.key g x.name created)) v
      fun v' _ => v' = v := by
  have hopened : ∀ i, created = .ok i → i ∈ created.toOption.toList := by
    rintro i rfl
    exact List.mem_singleton_self i
  exact sighting_locked connect ⟨some x, .creates g, _⟩ (by simp) (follows_settle hopened)

theorem sighting_finish (connect : Connector ε) {g : Nat} {created : Outcome} {v : Sight}
    (hcreated : ∀ i, created = .ok i → i ∈ v.alive) :
    Follows (sighting ε) (finish x.key g x.name created) v fun v' _ => v' = v := by
  refine (sighting_settle connect).bind fun v' kept hv' => ?_
  subst hv'
  match created with
  | .error e => exact sighting_tellWaiting nofun
  | .ok i =>
    dsimp only
    split
    · have hwatch : Follows (sighting ε) (watch x.key g i) ⟨[], []⟩ fun _ _ => True :=
        (sighting_of_keeps connect (takesDown_neutral.watch x.key g i)).mono fun _ _ _ => trivial
      refine hwatch.fork.bind fun v'' _ hv'' => ?_
      subst hv''
      exact sighting_tellWaiting hcreated
    · refine (sighting_of_keeps connect (takesDown_neutral.shutdown i)).bind fun v'' _ hv'' => ?_
      subst hv''
      exact sighting_tellWaiting nofun

theorem sighting_create (hvouches : Vouches connect) {g : Nat} :
    Follows (sighting ε) (create connect x.key g x.name x.config) ⟨[], []⟩ fun _ _ => True := by
  rw [create_eq]
  exact (hvouches x.name x.config x.key.cwd).bind fun v created hcreated =>
    (sighting_finish connect hcreated).mono fun _ _ _ => trivial

theorem sighting_outcomeOf {g : Nat} {limit : Limit} {v : Sight} :
    Follows (sighting ε) (outcomeOf g limit) v fun _ _ => True :=
  (sighting_of_inside (keeps_outcomeOf fun _ => ⟨rfl, rfl⟩)).mono fun _ _ _ => trivial

theorem sighting_getOrCreate (hvouches : Vouches connect) (x : Ask) :
    Follows (sighting ε) (getOrCreate connect x.name x.config x.cwd x.warmup x.token) ⟨[], []⟩
      fun _ _ => True := by
  refine (sighting_of_inside (Keeps.look fun _ => ⟨rfl, rfl⟩)).bind fun v down hv => ?_
  subst hv
  split
  · trivial
  refine (sighting_of_inside (Keeps.look fun _ => ⟨rfl, rfl⟩)).bind fun v started hv => ?_
  subst hv
  refine (sighting_locked connect (begins x) (by simp [begins]) follows_claimNow).bind
    fun v found hv => ?_
  subst hv
  match found with
  | .alive i => trivial
  | .starting g => exact sighting_outcomeOf
  | .vacant g => exact (sighting_create hvouches).fork.bind fun _ _ _ => sighting_outcomeOf

theorem obeys_sighting (hvouches : Vouches connect) :
    (rules connect).Obeys (sighting ε) (fun _ => (sighting ε).idle) fun _ _ _ => True where
  program := sighting_getOrCreate hvouches
  serves p hp := by
    have hneutral : Keeps (discipline connect).Neutral p := takesDown_neutral.serves hp
    exact (hneutral.mono fun _ _ => sighting_of_neutral).atRest
  outside w w' _ h := .silent (fun hd => h.1 ▸ hd) (Nat.le_of_eq h.2.symm) (by rw [h.1])

/-! ### What is seen in a run -/

def FoundAlive (moments : Moments ε) (a : Actor) (i : Nat) : Prop :=
  ∃ m ∈ moments, m.actor = a ∧ i < m.before.connections.length ∧
    (m.before.connection i).isAlive = true

def Tells (g : Nat) (m : Moment (World ε)) : Prop :=
  m.after.registry.outcomes.get? g ≠ m.before.registry.outcomes.get? g

/-- What is true of all parties and what they have seen after a run. -/
structure Sighted (P : Actor → Sight) (moments : Moments ε)
    (c : Crew (World ε) Ask Outcome) : Prop where
  staged : Staged (sighting ε) (fun _ _ _ => True) P c
  known : ∀ a, ∀ i ∈ (P a).known, i < c.state.connections.length
  alive : ∀ a, ∀ i ∈ (P a).alive, FoundAlive moments a i
  told : ∀ g i, c.state.registry.outcomes.get? g = some (.ok i) →
    ∃ m ∈ moments, Tells g m ∧ FoundAlive moments m.actor i

theorem FoundAlive.mono {i : Nat} (m : Moment (World ε)) (h : FoundAlive moments a i) :
    FoundAlive (moments ++ [m]) a i :=
  let ⟨m', hm', hi⟩ := h
  ⟨m', List.mem_append_left _ hm', hi⟩

namespace Sighted

variable {P : Actor → Sight} {v : Sight}

theorem alive_sees (h : Sighted P moments c) (hsees : Sees c.state c'.state (P a) v) {i : Nat}
    (hi : i ∈ v.alive) : FoundAlive (moments ++ [⟨a, c.state, c'.state⟩]) a i := by
  rcases hsees.alive i hi with hi | ⟨hi, halive⟩
  · exact (h.alive a i hi).mono _
  · exact ⟨_, List.mem_append_right _ (List.mem_singleton_self _), rfl, h.known a i hi, halive⟩

theorem told_sees (h : Sighted P moments c) (hsees : Sees c.state c'.state (P a) v) {g i : Nat}
    (hok : c'.state.registry.outcomes.get? g = some (.ok i)) :
    ∃ m ∈ moments ++ [⟨a, c.state, c'.state⟩], Tells g m ∧
      FoundAlive (moments ++ [⟨a, c.state, c'.state⟩]) m.actor i := by
  by_cases hbefore : c.state.registry.outcomes.get? g = some (.ok i)
  · obtain ⟨m, hm, htells, hfound⟩ := h.told g i hbefore
    exact ⟨m, List.mem_append_left _ hm, htells, hfound.mono _⟩
  · have hi : i ∈ (P a).alive := (hsees.told g i hok).resolve_left hbefore
    refine ⟨_, List.mem_append_right _ (List.mem_singleton_self _), ?_, (h.alive a i hi).mono _⟩
    intro heq
    exact hbefore (heq.symm.trans hok)

theorem move (hvouches : Vouches connect) (h : Sighted P moments c)
    (hmove : Move (rules connect) c a c') :
    ∃ P', Sighted P' (moments ++ [⟨a, c.state, c'.state⟩]) c' := by
  obtain ⟨v, hsees, hstaged⟩ := hmove.staged_acts (obeys_sighting hvouches)
    (fun _ _ _ _ hhands => hhands) h.staged
  refine ⟨_, hstaged, fun b i hi => ?_, fun b i hi => ?_, fun g i => h.told_sees hsees⟩
  · have hle : c.state.connections.length ≤ c'.state.connections.length := hsees.length_le
    rcases of_update (fun v : Sight => i ∈ v.known) hi with ⟨rfl, hnew⟩ | ⟨-, hi⟩
    · exact (hsees.known i hnew).elim (fun hi => Nat.lt_of_lt_of_le (h.known b i hi) hle) id
    · exact Nat.lt_of_lt_of_le (h.known b i hi) hle
  · rcases of_update (fun v : Sight => i ∈ v.alive) hi with ⟨rfl, hnew⟩ | ⟨-, hi⟩
    · exact h.alive_sees hsees hnew
    · exact (h.alive b i hi).mono _

end Sighted

theorem exists_sighted (hvouches : Vouches connect) (hw : w.registry = Registry.empty)
    (run : Run (rules connect) (Crew.ofState w) moments c) : ∃ P, Sighted P moments c := by
  induction run with
  | nil =>
    refine ⟨fun _ => ⟨[], []⟩, staged_ofState ?_, fun _ _ => nofun, fun _ _ => nofun,
      fun g i hok => ?_⟩
    · change Distinct w.registry
      rw [hw]
      exact distinct_empty
    · change w.registry.outcomes.get? g = some (.ok i) at hok
      rw [hw] at hok
      cases hok
  | move run hmove ih =>
    obtain ⟨P, h⟩ := ih
    exact h.move hvouches hmove

/-! ### How a caller comes to its connection -/

/-- A caller that returns a connection has just found it ready and alive, or has just heard of
it. -/
def Returns (x : Ask) (w w' : World ε) (r : Outcome) : Prop :=
  ∀ i, r = .ok i →
    (∃ g name, w.registry.slot? x.key = some (.ready g name i) ∧
      (w.connection i).isAlive = true ∧ (w'.connection i).isAlive = true) ∨
    ∃ g, w.registry.outcomes.get? g = some (.ok i) ∧ w' = w

theorem isAlive_touch (w : World ε) (i now : Nat) :
    ((w.onConnection i (Connection.touch now)).connection i).isAlive =
      (w.connection i).isAlive := by
  rcases Connection.connection_setConnection_cases w i
    (Connection.touch now (w.connection i)) with heq | heq
  · rw [World.onConnection, heq]
    rfl
  · rw [World.onConnection, heq]

theorem returns_claimNow (w : World ε) (i : Nat)
    (hfound : (claimNow x.key x.name x.config w).1 = .alive i) :
    Returns x w (claimNow x.key x.name x.config w).2 (.ok i) := by
  intro j hj
  cases hj
  rcases claimNow_cases x w with ⟨g, name, i', hslot, halive, heq⟩ |
    ⟨g, name, fileTypes, hslot, heq⟩ | ⟨registry, heq, -, -⟩
  · rw [heq] at hfound ⊢
    cases hfound
    exact .inl ⟨g, name, hslot, halive, (isAlive_touch w i _).trans halive⟩
  · rw [heq] at hfound
    cases hfound
  · rw [heq] at hfound
    cases hfound

theorem leaves_outcomeOf (g : Nat) (limit : Limit) :
    (outcomeOf g limit : Work ε Outcome).Leaves (Returns x) := by
  refine Leaves.bind (Leaves.await fun w r w' hs b hb i hi => ?_) fun r => ?_
  · subst hi
    match r with
    | .error e => cases hb
    | .ok r =>
      cases hb
      split at hs
      · cases hs
      · split at hs
        · next r' w'' hr =>
          cases hs
          obtain ⟨r, hout, heq⟩ := Option.map_eq_some_iff.1 hr
          cases heq
          exact .inr ⟨g, hout, rfl⟩
        · obtain ⟨e, -, heq⟩ := Option.map_eq_some_iff.1 hs
          cases heq
  · cases r <;> trivial

theorem leaves_getOrCreate (x : Ask) :
    (getOrCreate connect x.name x.config x.cwd x.warmup x.token).Leaves (Returns x) := by
  refine Leaves.always_bind (fun w r hr i hi => ?_) fun down => ?_
  · subst hi
    dsimp only at hr
    split at hr <;> cases hr
  · split
    · trivial
    refine Leaves.always_bind (fun w r hr => by cases hr) fun started => ?_
    refine Leaves.always_bind (fun w r hr => ?_) fun found => ?_
    · split at hr
      · next i hfound =>
        cases hr
        exact returns_claimNow w i hfound
      · cases hr
      · cases hr
    · match found with
      | .alive i => trivial
      | .starting g => exact leaves_outcomeOf g _
      | .vacant g => exact ⟨fun _ _ hr => (by cases hr), leaves_outcomeOf g _⟩

/-- A connection that a client gets with the move from `c` to `c'`. -/
inductive HandedOut (connect : Connector ε) (moments : Moments ε)
    (c c' : Crew (World ε) Ask Outcome) (x : Ask) (i : Nat) : Prop
  | found {g : Nat} {name : String}
      (hslot : c.state.registry.slot? x.key = some (.ready g name i))
      (hbefore : (c.state.connection i).isAlive = true)
      (hafter : (c'.state.connection i).isAlive = true) : HandedOut connect moments c c' x i
  /-- The creation that has opened it has found it alive at the moment `m`. -/
  | told {j g : Nat} {y : Ask} {earlier later : Moments ε} {m : Moment (World ε)}
      (hopened : OpenedFor connect moments c' i j y g) (hkey : y.key.Same x.key)
      (houtcome : c.state.registry.outcomes.get? g = some (.ok i)) (hstill : c'.state = c.state)
      (hmoments : moments = earlier ++ m :: later) (hactor : m.actor = .service j)
      (hthere : i < m.before.connections.length) (halive : (m.before.connection i).isAlive = true)
      (hsince : (c'.state.connection i).isAlive = true ∨ ∃ m' ∈ m :: later,
        (m'.before.connection i).isAlive = true ∧ ¬ (m'.after.connection i).isAlive = true) :
      HandedOut connect moments c c' x i

/-- A connection that a caller gets is alive when the caller gets it, unless the caller has waited
for its creation and the connection has ended since the creation found it alive. -/
theorem handed_out (hconnect : Lawful connect) (hvouches : Vouches connect)
    (hw : w.registry = Registry.empty) (run : Run (rules connect) (Crew.ofState w) moments c)
    {k i : Nat} (hmove : Move (rules connect) c (.client k) c') {p : Work ε Outcome}
    (hbefore : c.clients[k]? = some (x, p)) (hgoing : p.result? = none)
    (hafter : c'.clients[k]? = some (x, .done (.ok i))) :
    HandedOut connect (moments ++ [⟨.client k, c.state, c'.state⟩]) c c' x i := by
  have hreturns : Returns x c.state c'.state (.ok i) :=
    run.last_step (W := Returns) leaves_getOrCreate rfl hmove hbefore hgoing hafter
  rcases hreturns i rfl with ⟨g, name, hslot, halive, halive'⟩ | ⟨g, houtcome, hstill⟩
  · exact .found hslot halive halive'
  · have run' := run.move hmove
    obtain ⟨P, h⟩ := exists_accounted hconnect hw run'
    obtain ⟨V, hsighted⟩ := exists_sighted hvouches hw run'
    have houtcome' : c'.state.registry.outcomes.get? g = some (.ok i) := by
      rw [hstill, houtcome]
    obtain ⟨j, y, g', hj, hopened, hkey⟩ := h.given hafter
    -- the generation that was told of is the one for which the connection was opened
    obtain ⟨j', y', hj', hopened'⟩ := h.told_ok houtcome'
    have hjj' := h.opener_unique _ _ i hopened hopened'
    obtain rfl := Actor.service.inj hjj'
    cases hj.symm.trans hj'
    -- and who has told of it is its creation
    obtain ⟨mt, hmt, htells, m, hm, hactor, hthere, halive⟩ := hsighted.told g i houtcome'
    obtain ⟨-, j', y', hteller, hj''⟩ := h.told_by hmt htells
    obtain rfl := h.once hj hj''
    obtain ⟨earlier, later, hmoments⟩ := List.append_of_mem hm
    have hsince := (hmoments ▸ run').holds_or_stops
      (fun w : World ε => (w.connection i).isAlive = true) halive
    exact .told (h.opened_for hj hopened) hkey houtcome hstill hmoments
      (hactor.trans hteller) hthere halive hsince

/-! ### A connection that ends while its caller waits -/

/-- A connector over the two pipes that there are, which makes sure of its connection. -/
def checkedPipes : Connector Unit := fun name config cwd => do
  let i ← Connection.start (ConnectionOptions.ofServer name config cwd 30000) 0 1 none
  match (← Work.connection i).usable with
  | .error e => return .error e
  | .ok () => return .ok i

theorem lawful_checkedPipes : Lawful checkedPipes := by
  intro name config cwd
  refine opening_start.bind fun g i hopened => ?_
  refine (opening_of_inside (Keeps.look fun _ => ⟨rfl, rfl⟩)).bind fun g' c hg => ?_
  subst hg
  split
  · exact nofun
  · intro j hj
    cases hj
    exact hopened

theorem vouches_checkedPipes : Vouches checkedPipes := by
  intro name config cwd
  refine sighting_start.bind fun v i hi => (sighting_connection hi).bind fun v' c hv' => ?_
  unfold Connection.usable
  cases halive : c.isAlive with
  | false => exact nofun
  | true =>
    intro j hj
    cases hj
    exact hv'.2 halive

def playing (choices : List (Choice (rules checkedPipes))) :
    Moments Unit × Crew (World Unit) Ask Outcome :=
  play choices ([], Crew.ofState twoPipes)

theorem run_playing (choices : List (Choice (rules checkedPipes))) :
    Run (rules checkedPipes) (Crew.ofState twoPipes) (playing choices).1 (playing choices).2 :=
  run_play choices .nil

/-- A caller waits for a creation, which goes on to its end. -/
def untilTold : List (Choice (rules checkedPipes)) :=
  [.enter someAsk] ++ List.replicate 4 (.client 0) ++ List.replicate 7 (.service 0)

/-- Another caller is about to look the key up. -/
def untilFound : List (Choice (rules checkedPipes)) :=
  untilTold ++ [.enter someAsk] ++ List.replicate 2 (.client 1)

theorem handed_out_found : HandedOut checkedPipes
    ((playing untilFound).1 ++
      [⟨.client 1, (playing untilFound).2.state, (playing (untilFound ++ [.client 1])).2.state⟩])
    (playing untilFound).2 (playing (untilFound ++ [.client 1])).2 someAsk 0 :=
  have hnext : Choice.next? (playing untilFound).2 (Choice.client (R := rules checkedPipes) 1) =
      some (.client 1, (playing (untilFound ++ [.client 1])).2) := by rfl
  handed_out lawful_checkedPipes vouches_checkedPipes rfl (run_playing untilFound)
    (Choice.move_of_next? hnext) (p := _) (by rfl) (by rfl) (by rfl)

/-- The server hangs up before the caller wakes, and the connection ends. -/
def untilDead : List (Choice (rules checkedPipes)) :=
  untilTold ++ [.outside hangUp fun _ => ⟨rfl, rfl⟩] ++ List.replicate 7 (.service 2)

/-- The caller is still waiting when the connection is dead, and gets it. -/
theorem handed_out_dead :
    ((playing untilDead).2.clients.map fun e => e.2.result?) = [none] ∧
    ((playing untilDead).2.state.connection 0).isAlive = false ∧
    ((playing (untilDead ++ [.client 0])).2.clients.map fun e => e.2.result?) = [some (.ok 0)] ∧
    ((playing (untilDead ++ [.client 0])).2.state.connection 0).isAlive = false := by
  refine ⟨?_, ?_, ?_, ?_⟩ <;> rfl

end LspClient.Registry
