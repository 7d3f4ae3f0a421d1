import LspClient.Proofs.Connection.Obeying
import LspClient.Proofs.Program.Heeding
import LspClient.Proofs.Program.Logs
import LspClient.Proofs.Registry.Accounted

/-!
# Who answers for a connection

A creation answers for the connection that it has opened, until it is in a slot or has ended. That
is the stage of a discipline (`tending`), which lets nobody end who still answers for one: what a
creation does not keep it shuts down. A connector has to be as careful with what it opens and does
not give (`Tidy`).

All else leaves connections as they are or ends them, and none comes back that has ended (`Steady`).
-/

namespace LspClient

open Program
open World (Inside)

variable {ε α : Type} {i : Nat} {w w' : World ε}

/-! ### Connections that have ended -/

/-- A connection that has ended does not come back. -/
def World.Final (w w' : World ε) : Prop :=
  ∀ i, (w.connection i).isAlive = false → (w'.connection i).isAlive = false

open World (Final)

theorem World.final_of_eq (h : w'.connections = w.connections) : Final w w' := by
  intro i hi
  rwa [World.connection, h]

theorem Connection.Aside.final (h : Connection.Aside i w w') : Final w w' := by
  intro j hj
  by_cases hji : j = i
  · subst hji
    exact h.apart.calm.ended hj
  · rwa [h.others j hji]

theorem Connection.Posts.final (h : Connection.Posts i w w') : Final w w' := by
  intro j hj
  by_cases hji : j = i
  · subst hji
    obtain ⟨outbox, writing, heq⟩ := h.connection
    rwa [heq]
  · rwa [h.others j hji]

theorem World.OnProcesses.final (h : World.OnProcesses w w') : Final w w' := by
  obtain ⟨pipes, children, rfl⟩ := h
  exact fun _ h => h

theorem World.final_onConnection {f : Connection → Connection}
    (hf : ∀ c, c.isAlive = false → (f c).isAlive = false) : Final w (w.onConnection i f) := by
  intro j hj
  by_cases hji : j = i
  · subst hji
    rcases Connection.connection_setConnection_cases w j (f (w.connection j)) with heq | heq
    · rw [World.onConnection, heq]
      exact hf _ hj
    · rwa [World.onConnection, heq]
  · rwa [World.onConnection, Connection.connection_setConnection_ne hji]

/-- The step opens no connection, and brings none back. -/
def World.Steady (w w' : World ε) : Prop :=
  w'.connections.length = w.connections.length ∧ Final w w'

open World (Steady)

theorem World.Steady.refl (w : World ε) : Steady w w := ⟨rfl, fun _ h => h⟩

theorem World.steady_of_eq (h : w'.connections = w.connections) : Steady w w' :=
  ⟨by rw [h], World.final_of_eq h⟩

theorem Connection.parts_steady : Connection.Parts (ε := ε) i fun p => Keeps Steady p :=
  Connection.parts_keeps (fun _ _ h => ⟨h.length, h.final⟩) fun _ _ h => ⟨h.length, h.final⟩

theorem Connection.isAlive_receive (frame : Json) (c : Connection) :
    (receive frame c).2.isAlive = c.isAlive := by
  unfold receive
  split
  · rfl
  · unfold takeResponse
    split
    · next hcalls =>
      obtain ⟨-, rfl⟩ := Prod.mk.inj hcalls
      rfl
    · rfl
  · rfl
  · split
    · split
      · unfold takePublish
        split <;> rfl
      · rfl
    · rfl

theorem Connection.steady_reader : Keeps Steady (Connection.reader i : Work ε Bool) :=
  parts_steady.reader fun frame => Keeps.act fun _ => ⟨List.length_set,
    World.final_onConnection (f := fun c => (receive frame c).2) fun c hc =>
      (isAlive_receive frame c).trans hc⟩

theorem Connection.steady_writer : Keeps Steady (Connection.writer i : Work ε Bool) :=
  Connection.keeps_writer (fun _ _ h => ⟨h.length, h.final⟩) fun _ _ h => ⟨h.length, h.final⟩

namespace Registry

/-! ### What one answers for -/

/-- One answers for the connections that one has opened, until they have ended or are in a slot. -/
structure Tends (w w' : World ε) (hands hands' : List Nat) : Prop where
  final : Final w w'
  length_le : w.connections.length ≤ w'.connections.length
  opened : ∀ i ∈ hands', i ∈ hands ∨ w.connections.length ≤ i ∧ i < w'.connections.length
  accounted : ∀ i, i < w'.connections.length → i ∈ hands ∨ w.connections.length ≤ i →
    i ∈ hands' ∨ (w'.connection i).isAlive = false ∨ ∃ g, Stored g w' i

theorem tends_of_steady (h : Steady w w') (hands : List Nat) : Tends w w' hands hands where
  final := h.2
  length_le := Nat.le_of_eq h.1.symm
  opened _ hi := .inl hi
  accounted i hi hhands := by
    refine .inl (hhands.resolve_right fun hle => ?_)
    rw [h.1] at hi
    exact absurd hi (Nat.not_lt.2 hle)

/-- Nobody is over who answers for a connection. -/
def tending (ε : Type) : Discipline (World ε) (List Nat) where
  Inv _ := True
  Acts hands w w' hands' := Tends w w' hands hands'
  idle := []
  Ends hands := hands = []
  ends_idle := rfl
  inv_of_acts _ _ := trivial
  acts_self {hands w} _ := tends_of_steady (.refl w) hands

theorem neutral_of_steady (h : Steady w w') : (tending ε).Neutral w w' :=
  fun _ hands => tends_of_steady h hands

theorem tending_of_steady {p : Work ε α} {hands : List Nat} (h : Keeps Steady p) :
    Follows (tending ε) p hands fun hands' _ => hands' = hands :=
  (h.mono fun _ _ => neutral_of_steady).follows

theorem tending_atRest {p : Work ε Bool} (h : Keeps Steady p) :
    Follows (tending ε) p [] (tending ε).AtRest :=
  (h.mono fun _ _ => neutral_of_steady).atRest

/-- Whoever begins to shut a connection down has ended it. -/
theorem isAlive_beginClosing (hi : i < w.connections.length) {b : Bool}
    (hs : Step w (Work.onConnection i Connection.beginClosing) w' (.done b) []) :
    (w'.connection i).isAlive = false := by
  cases hs with
  | await hs =>
    cases hs
    rw [World.connection_setConnection hi]
    simp [Connection.isAlive, Calls.isAlive]

/-- Whoever shuts the connection down that it answers for is done with it. -/
theorem tending_shutdown {hands : List Nat} (hhands : ∀ j ∈ hands, j = i) :
    Follows (tending ε) (Connection.shutdown i) hands fun hands' _ => hands' = [] := by
  have hsteady : Keeps Steady (Connection.shutdown i : Work ε Unit) :=
    Connection.parts_steady.shutdown
  intro w b w' _ hs
  obtain ⟨hw, hrest⟩ := hsteady w b w' hs
  refine ⟨[], ⟨hw.2, Nat.le_of_eq hw.1.symm, nofun, fun j hj hopen => ?_⟩,
    tending_of_steady hrest⟩
  have hmem : j ∈ hands := by
    refine hopen.resolve_right fun hle => ?_
    rw [hw.1] at hj
    exact absurd hj (Nat.not_lt.2 hle)
  obtain rfl := hhands j hmem
  exact .inr (.inl (isAlive_beginClosing (hw.1 ▸ hj) (.await hs)))

/-! ### Connectors -/

/-- A connector answers for what it has opened: what it does not give has ended. -/
def Tidy (connect : Connector ε) : Prop :=
  ∀ name config cwd, Follows (tending ε) (connect name config cwd) [] fun hands r =>
    ∀ i ∈ hands, r = .ok i

theorem tending_start {options : ConnectionOptions} {input output : Nat}
    {process : Option Running} : Follows (tending ε)
      (Connection.start options input output process) [] fun hands i => hands = [i] := by
  -- the new connection is in the hands of whoever opens it
  have hopen (f : World ε → Connection) : Follows (tending ε)
      (act fun w => (w.connections.length, { w with connections := w.connections ++ [f w] }))
      [] fun hands i => hands = [i] := by
    refine Follows.act fun w _ => ⟨[w.connections.length], ⟨fun i hi => ?_, by simp, ?_, ?_⟩, rfl⟩
    · rcases Nat.lt_or_ge i w.connections.length with hlt | hge
      · rwa [World.connection, List.getElem?_append_left hlt]
      · rw [World.connection, List.getElem?_eq_none hge] at hi
        cases hi
    · simp
    · intro i hi hopened
      have hle : w.connections.length ≤ i := hopened.resolve_left List.not_mem_nil
      rw [List.length_append, List.length_singleton] at hi
      refine .inl (List.mem_singleton.2 ?_)
      omega
  have hstreams (i : Nat) : Follows (tending ε) (do
      start (Connection.writer i)
      start (Connection.reader i)
      return i) [i] fun hands j => hands = [j] :=
    .inl ⟨tending_atRest Connection.steady_writer,
      .inl ⟨tending_atRest Connection.steady_reader, rfl⟩⟩
  cases process with
  | none =>
    refine (hopen _).bind fun hands i hhands => ?_
    subst hhands
    exact hstreams i
  | some p =>
    refine (hopen _).bind fun hands i hhands => ?_
    subst hhands
    exact .inl ⟨tending_atRest Connection.parts_steady.errorReader, hstreams i⟩

/-- A connection whose handshake has failed is shut down. -/
theorem tending_establish {config : ServerConfig} :
    Follows (tending ε) (Connection.establish i config) [i] fun hands r =>
      ∀ j ∈ hands, r = .ok j := by
  refine (tending_of_steady Connection.parts_steady.shakeHands).bind fun hands r hhands => ?_
  subst hhands
  match r with
  | .ok () =>
    intro j hj
    obtain rfl := List.mem_singleton.1 hj
    rfl
  | .error e =>
    refine (tending_shutdown fun j hj => List.mem_singleton.1 hj).bind fun hands _ hhands => ?_
    subst hhands
    exact nofun

/-- To launch a server is tidy. -/
theorem tidy_launch {machine : Machine ε}
    (hmachine : ∀ name invocation, Keeps Steady (machine name invocation)) (timeout : Nat) :
    Tidy (Server.launch machine timeout) := by
  intro name config cwd
  refine (tending_of_steady (Keeps.look Steady.refl)).bind fun hands _ hhands => ?_
  subst hhands
  split
  · exact nofun
  refine (tending_of_steady (Process.keeps_start (fun _ _ h => ⟨h.inside.2, h.final⟩) hmachine
    _ _ _)).bind fun hands r hhands => ?_
  subst hhands
  match r with
  | .error e => exact nofun
  | .ok running =>
    refine tending_start.bind fun hands i hhands => ?_
    subst hhands
    exact tending_establish

/-! ### Creations and callers -/

variable {connect : Connector ε} {x : Ask} {g : Nat}

theorem takesDown_steady : TakesDown (ε := ε) Steady where
  trims _ _ h := World.steady_of_eq h.2
  untilClosed _ := Connection.parts_steady.untilClosed
  shutdown _ := Connection.parts_steady.shutdown

theorem tending_tellWaiting {r : Outcome} :
    Follows (tending ε) (tellWaiting g r) [] fun hands _ => hands = [] :=
  tending_of_steady (Keeps.update fun _ => World.steady_of_eq rfl)

/-- A creation is no longer answerable for a connection that it has kept. -/
theorem tending_settle {key : ConnectionKey} {name : String} {hands : List Nat}
    (hhands : ∀ j ∈ hands, j = i) :
    Follows (tending ε) (locked (step fun r => r.settle key g name (.ok i))) hands
      fun hands' kept => (∀ j ∈ hands', j = i) ∧ (kept = true → hands' = []) := by
  refine Follows.locked fun w _ => ?_
  rw [step]
  rcases settle_ok_cases w.registry key g name i with ⟨-, -, heq⟩ | ⟨-, heq⟩
  · rw [heq]
    refine ⟨[], ⟨fun _ h => h, Nat.le_refl _, List.forall_mem_nil _, fun j hj hopen => ?_⟩,
      List.forall_mem_nil _, fun _ => rfl⟩
    obtain rfl := hhands j (hopen.resolve_right (Nat.not_le.2 hj))
    refine .inr (.inr ⟨g, key, name, ?_⟩)
    change (w.registry.fill key _).slot? key = _
    rw [slot?_fill, if_pos (.refl key)]
  · rw [heq]
    exact ⟨hands, tends_of_steady (.refl w) hands, hhands, fun h => absurd h Bool.false_ne_true⟩

theorem tending_finish {key : ConnectionKey} {name : String} {created : Outcome}
    {hands : List Nat} (hhands : ∀ j ∈ hands, created = .ok j) :
    Follows (tending ε) (finish key g name created) hands fun hands' _ => hands' = [] := by
  match created with
  | .error e =>
    obtain rfl : hands = [] := List.eq_nil_iff_forall_not_mem.2 fun j hj => nomatch hhands j hj
    have hsettle : Keeps Steady (locked (step fun r => r.settle key g name (.error e)) :
        Work ε Bool) := Keeps.locked fun _ => World.steady_of_eq rfl
    refine (tending_of_steady hsettle).bind fun hands _ h => ?_
    subst h
    exact tending_tellWaiting
  | .ok i =>
    have hhands' (j : Nat) (hj : j ∈ hands) : j = i := (Except.ok.inj (hhands j hj)).symm
    refine (tending_settle hhands').bind fun hands kept h => ?_
    dsimp only
    split
    · next hkept =>
      obtain rfl := h.2 hkept
      have hwatch : Keeps Steady (watch key g i : Work ε Unit) := takesDown_steady.watch key g i
      refine (tending_of_steady hwatch).fork.bind fun hands _ h => ?_
      subst h
      exact tending_tellWaiting
    -- what is not kept is shut down, so no one has it in hand
    · refine (tending_shutdown h.1).bind fun hands _ h => ?_
      subst h
      exact tending_tellWaiting

/-- A creation that is over answers for nothing any more. -/
theorem tending_create (htidy : Tidy connect) :
    Follows (tending ε) (create connect x.key g x.name x.config) [] fun hands _ => hands = [] := by
  rw [create_eq]
  exact (htidy x.name x.config x.key.cwd).bind fun _ _ => tending_finish

theorem steady_claimNow (x : Ask) (w : World ε) :
    Steady w (claimNow x.key x.name x.config w).2 := by
  rcases claimNow_cases x w with ⟨g, name, i, -, -, heq⟩ | ⟨g, name, fileTypes, -, heq⟩ |
    ⟨registry, heq, -, -⟩
  · rw [heq]
    exact ⟨List.length_set, World.final_onConnection fun _ h => h⟩
  · rw [heq]
    exact .refl w
  · rw [heq]
    exact World.steady_of_eq rfl

theorem tending_getOrCreate (htidy : Tidy connect) (x : Ask) :
    Follows (tending ε) (getOrCreate connect x.name x.config x.cwd x.warmup x.token) []
      fun _ _ => True := by
  rw [getOrCreate_eq]
  refine (tending_of_steady (Keeps.look Steady.refl)).bind fun hands down h => ?_
  subst h
  cases down with
  | true => trivial
  | false =>
    refine (tending_of_steady (Keeps.look Steady.refl)).bind fun hands now h => ?_
    subst h
    refine (tending_of_steady (Keeps.locked (steady_claimNow x))).bind fun hands found h => ?_
    subst h
    have hwait {g : Nat} {limit : Limit} : Follows (tending ε) (outcomeOf g limit) []
        fun _ _ => True :=
      (tending_of_steady (keeps_outcomeOf Steady.refl)).mono fun _ _ _ => trivial
    cases found with
    | alive i => trivial
    | starting g => exact hwait
    | vacant g =>
      refine (Follows.fork (tending_create htidy)).bind fun hands _ h => ?_
      subst h
      exact hwait

/-- Any number of callers, and of those who take connections down; meanwhile connections do as they
please, but none comes back that has ended. -/
def lasting (connect : Connector ε) : Crew.Rules (World ε) Ask Outcome :=
  { rules connect with Outside := fun w w' => Inside w w' ∧ Final w w' }

theorem exists_accounted_lasting (hconnect : Lawful connect) {w : World ε}
    {moments : Moments ε} {c : Crew (World ε) Ask Outcome} (hw : w.registry = Registry.empty)
    (run : Crew.Run (lasting connect) (Crew.ofState w) moments c) :
    ∃ P, Accounted connect P moments c := by
  have run' : Crew.Run (rules connect) (Crew.ofState w) moments c :=
    run.mono rfl (fun _ h => h) fun _ _ h => h.1
  exact exists_accounted hconnect hw run'

theorem obeys_tending (htidy : Tidy connect) :
    (lasting connect).Obeys (tending ε) (fun _ => (tending ε).idle) fun _ _ _ => True where
  program := tending_getOrCreate htidy
  serves _ hp := tending_atRest (takesDown_steady.serves hp)
  outside _ _ _ h := tends_of_steady ⟨h.1.2, h.2⟩ []

end Registry

end LspClient
