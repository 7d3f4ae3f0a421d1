import LspClient.Proofs.Connection.Parts
import LspClient.Proofs.Process.Commands
import LspClient.Session.Processes

/-!
# Connectors

What the registry relies on when it has a connection created: the registry is none of a connector's
business, and a connection that it gives is one that it has opened (`Lawful`). The programs of
connections do neither (`Inside`), so launching a server is lawful whatever programs the machine
runs, as long as these keep inside as well (`lawful_launch`).
-/

namespace LspClient

open Program

variable {ε α : Type} {i : Nat} {w w' : World ε}

/-- The step leaves the registry as it is, and opens no connection. -/
def World.Inside (w w' : World ε) : Prop :=
  w'.registry = w.registry ∧ w'.connections.length = w.connections.length

open World (Inside)

theorem Connection.Aside.inside (h : Connection.Aside i w w') : Inside w w' :=
  ⟨h.registry, h.length⟩

theorem Connection.Posts.inside (h : Connection.Posts i w w') : Inside w w' :=
  ⟨h.registry, h.length⟩

theorem World.OnProcesses.inside (h : World.OnProcesses w w') : Inside w w' := by
  obtain ⟨pipes, children, rfl⟩ := h
  exact ⟨rfl, rfl⟩

namespace Connection

theorem inside_setConnection (w : World ε) (i : Nat) (c : Connection) :
    Inside w (w.setConnection i c) := ⟨rfl, List.length_set⟩

theorem keeps_onConnection (f : Connection → α × Connection) :
    Keeps Inside (Work.onConnection i f : Work ε α) :=
  Keeps.act fun w => inside_setConnection w i _

theorem keeps_updateConnection (f : Connection → Connection) :
    Keeps Inside (update (World.onConnection i f) : Work ε Unit) :=
  Keeps.update fun w => inside_setConnection w i _

/-- The programs of a connection keep inside. -/
theorem parts_inside : Parts (ε := ε) i fun p => Keeps Inside p :=
  parts_keeps (fun _ _ h => h.inside) fun _ _ h => h.inside

theorem reader_inside : Keeps Inside (reader i : Work ε Bool) :=
  parts_inside.reader fun _ => keeps_onConnection _

theorem writer_inside : Keeps Inside (writer i : Work ε Bool) :=
  keeps_writer (fun _ _ h => h.inside) fun _ _ h => h.inside

end Connection

/-- To wait for an outcome changes nothing. -/
theorem Registry.keeps_outcomeOf {G : World ε → World ε → Prop} (hself : ∀ w, G w w) {g : Nat}
    {limit : Limit} : Keeps G (outcomeOf g limit : Work ε (Except Failure Nat)) := by
  refine Keeps.bind (Connection.keeps_within hself fun w r w' hs => ?_) fun r => ?_
  · obtain ⟨outcome, -, heq⟩ := Option.map_eq_some_iff.1 hs
    cases heq
    exact hself w
  · cases r <;> exact Keeps.pure _

/-! ### Opening connections -/

/-- The connections that a party has opened, with those that it opens in a step. -/
inductive World.Opens (w w' : World ε) : List Nat → List Nat → Prop
  | nothing {opened : List Nat} (h : w'.connections.length = w.connections.length) :
      Opens w w' opened opened
  | one {opened : List Nat} (h : w'.connections.length = w.connections.length + 1) :
      Opens w w' opened (w.connections.length :: opened)

/-- One may open connections, and remembers which; the services that one starts may not. -/
def opening (ε : Type) : Discipline (World ε) (Option (List Nat)) where
  Inv _ := True
  Acts g w w' g' := w'.registry = w.registry ∧ match g, g' with
    | none, none => w'.connections.length = w.connections.length
    | some opened, some opened' => w.Opens w' opened opened'
    | _, _ => False
  idle := none
  inv_of_acts _ _ := trivial
  acts_self {g w} _ := by
    cases g with
    | none => exact ⟨rfl, rfl⟩
    | some opened => exact ⟨rfl, .nothing rfl⟩

theorem neutral_of_inside (h : Inside w w') : (opening ε).Neutral w w' := by
  intro _ g
  cases g with
  | none => exact h
  | some opened => exact ⟨h.1, .nothing h.2⟩

theorem inside_of_neutral (h : (opening ε).Neutral w w') : Inside w w' := h trivial none

theorem opening_of_inside {p : Work ε α} {g : Option (List Nat)} (h : Keeps Inside p) :
    Follows (opening ε) p g fun g' _ => g' = g :=
  (h.mono fun _ _ => neutral_of_inside).follows

theorem opening_atRest {p : Work ε Bool} (h : Keeps Inside p) :
    Follows (opening ε) p none (opening ε).AtRest :=
  (h.mono fun _ _ => neutral_of_inside).atRest

/-- Whoever may not open connections keeps inside. -/
theorem inside_of_opening {p : Work ε α} {Q : Option (List Nat) → α → Prop}
    (hp : Follows (opening ε) p none Q) : Keeps Inside p := by
  induction p with
  | done a => trivial
  | await deadline step next ih =>
    intro w b w' hs
    obtain ⟨g', hacts, hnext⟩ := hp w b w' trivial hs
    cases g' with
    | none => exact ⟨hacts, ih b hnext⟩
    | some opened => exact hacts.2.elim
  | spawn service next ihs ih =>
    rcases hp with ⟨hservice, hnext⟩ | ⟨i, g', hhands, -, -⟩
    · exact ⟨ihs hservice, ih hnext⟩
    · exact hhands.elim
  | both p q next _ _ ih =>
    exact ⟨hp.1.mono fun _ _ => inside_of_neutral, hp.2.1.mono fun _ _ => inside_of_neutral,
      fun b c => ih b c (hp.2.2 b c)⟩

/-- A connector leaves the registry alone, and gives a connection that it has opened. -/
def Lawful (connect : Connector ε) : Prop :=
  ∀ name config cwd, Follows (opening ε) (connect name config cwd) (some []) fun opened r =>
    ∀ i, r = .ok i → ∃ is, opened = some is ∧ i ∈ is

theorem Lawful.keeps_registry {connect : Connector ε} (h : Lawful connect) (name : String)
    (config : ServerConfig) (cwd : Path) :
    Keeps (fun w w' => w'.registry = w.registry) (connect name config cwd) :=
  Follows.keeps (D := opening ε) (fun _ => trivial) (fun _ _ _ _ hacts => hacts.1)
    (h name config cwd)

theorem opening_streams (i : Nat) : Follows (opening ε) (do
    start (Connection.writer i)
    start (Connection.reader i)
    return i) (some [i]) fun opened j => ∃ is, opened = some is ∧ j ∈ is :=
  .inl ⟨opening_atRest Connection.writer_inside,
    .inl ⟨opening_atRest Connection.reader_inside, [i], rfl, List.mem_singleton_self i⟩⟩

theorem opening_start {options : ConnectionOptions} {input output : Nat}
    {process : Option Running} : Follows (opening ε)
      (Connection.start options input output process) (some []) fun opened i =>
        ∃ is, opened = some is ∧ i ∈ is := by
  have hopen (f : World ε → Connection) : Follows (opening ε)
      (act fun w => (w.connections.length, { w with connections := w.connections ++ [f w] }))
      (some []) fun opened i => opened = some [i] :=
    Follows.act fun w _ => ⟨some [w.connections.length], ⟨rfl, .one (by simp)⟩, rfl⟩
  cases process with
  | none =>
    refine (hopen _).bind fun g i hg => ?_
    subst hg
    exact opening_streams i
  | some p =>
    refine (hopen _).bind fun g i hg => ?_
    subst hg
    exact .inl ⟨opening_atRest Connection.parts_inside.errorReader, opening_streams i⟩

/-- A failed handshake, too, is no business of the registry. -/
theorem opening_establish {config : ServerConfig} {opened : List Nat} (hi : i ∈ opened) :
    Follows (opening ε) (Connection.establish i config) (some opened) fun g r =>
      ∀ j, r = .ok j → ∃ is, g = some is ∧ j ∈ is := by
  refine (opening_of_inside Connection.parts_inside.shakeHands).bind fun g r hg => ?_
  subst hg
  match r with
  | .ok () =>
    intro j hj
    cases hj
    exact ⟨opened, rfl, hi⟩
  | .error e =>
    exact (opening_of_inside Connection.parts_inside.shutdown).bind fun _ _ _ => nofun

theorem inside_start {machine : Machine ε}
    (hmachine : ∀ name invocation, Keeps Inside (machine name invocation)) (program : String)
    (args : List String) (dir : Option Path) :
    Keeps Inside (Process.start machine program args dir) :=
  Process.keeps_start (fun _ _ h => h.inside) hmachine program args dir

namespace Server

/-- To launch a server is lawful. -/
theorem lawful_launch {machine : Machine ε}
    (hmachine : ∀ name invocation, Keeps Inside (machine name invocation)) (timeout : Nat) :
    Lawful (launch machine timeout) := by
  intro name config cwd
  refine (opening_of_inside (Keeps.look fun _ => ⟨rfl, rfl⟩)).bind fun g r hg => ?_
  subst hg
  split
  · exact nofun
  refine (opening_of_inside (inside_start hmachine _ _ _)).bind fun g r hg => ?_
  subst hg
  match r with
  | .error e => exact nofun
  | .ok running =>
    refine opening_start.bind fun g i hg => ?_
    obtain ⟨is, rfl, hi⟩ := hg
    exact opening_establish hi

end Server

end LspClient
