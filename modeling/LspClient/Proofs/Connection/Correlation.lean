import LspClient.Proofs.Connection.Invariant
import LspClient.Proofs.Connection.Obeying
import LspClient.Proofs.Program.Crew
import LspClient.Proofs.Program.Playing
import LspClient.Proofs.Program.Staged

/-!
# Requests and their responses

The programs of one connection are a crew (`rules`): any number of requests, the services that the
connection starts, any number of shutdowns and notifications. Everything else may happen to the
world, as long as it does not touch the calls of the connection: the other end of the pipes, the
clock, cancellations, and the rest of the client.

`Correlated` says of a run what the moments of it and its last state show, without the stages of
anybody: that numbers are not shared, that a call that has returned is not registered, that no call
is completed twice, that replies answer the call that they are given to, and that a number that has
left the table is of no more use to anybody. It holds of all runs of a new connection in which the
numbers do not start anew (`correlated`).
-/

namespace LspClient.Connection

open Calls Crew

variable {ε : Type}

/-- A request that somebody makes. -/
structure Ask where
  method : String
  params : Option Json
  token : Token
  timeout : Option Nat

/-- The services of a connection. -/
inductive Serves (i : Nat) : Work ε Bool → Prop
  | errorReader (errors : Channel) : Serves i (errorReader i errors)
  | writer : Serves i (writer i)
  | reader : Serves i (reader i)
  | shutdown : Serves i (Program.once (shutdown i))
  | notify (method : String) (params : Option Json) :
      Serves i (Program.once do let _ ← notify i method params)

/-- What else may happen: anything that leaves the calls of the connection alone. -/
def Elsewhere (i : Nat) (w w' : World ε) : Prop :=
  w.connections.length ≤ w'.connections.length ∧
    (w'.connection i).calls = (w.connection i).calls

def rules (ε : Type) (i : Nat) : Rules (World ε) Ask Outcome where
  program a := request i a.method a.params a.token a.timeout
  Serves := Serves i
  Outside := Elsewhere i

theorem obeys_rules (ε : Type) (i : Nat) :
    (rules ε i).Obeys (discipline ε i) (fun _ => Party.idle) fun a p r =>
      Returned a.method p r where
  program _ := follows_request ⟨rfl, rfl⟩
  serves p hp := by
    cases hp with
    | errorReader errors => exact follows_errorReader
    | writer => exact follows_writer
    | reader => exact follows_reader
    | shutdown => exact follows_shutdown.once.atRest
    | notify method params =>
      have hnotify : Program.Follows (discipline ε i) (do let _ ← notify i method params)
          Party.idle fun g' _ => g'.held = [] :=
        follows_notify.bind fun g' _ hg' => by
          rw [hg']
          exact Program.Follows.pure rfl
      exact hnotify.once.atRest
  outside w w' hinv h := by
    refine ⟨Nat.lt_of_lt_of_le hinv.1 h.1, ?_⟩
    rw [h.2]
    exact .rest

/-! ### What is seen of a run -/

abbrev Moments (ε : Type) := List (Moment (World ε))

section

variable (i : Nat)

def callsBefore (m : Moment (World ε)) : Calls := (m.before.connection i).calls

def callsAfter (m : Moment (World ε)) : Calls := (m.after.connection i).calls

/-- The numbers that were taken, with those who took them, in order. -/
def numbersTaken (moments : Moments ε) : List (Actor × Nat) :=
  moments.flatMap fun m => numberTaken m.actor (callsBefore i m) (callsAfter i m)

/-- A call is registered. -/
def Registers (m : Moment (World ε)) (id : Nat) : Prop :=
  (callsBefore i m).pending.get? id = none ∧ (callsAfter i m).pending.get? id ≠ none

/-- A call leaves the table of registered calls. -/
def Leaves (m : Moment (World ε)) (id : Nat) : Prop :=
  (callsBefore i m).pending.get? id ≠ none ∧ (callsAfter i m).pending.get? id = none

/-- A call is given an outcome. -/
def Completes (m : Moment (World ε)) (id : Nat) : Prop :=
  ∃ o, (callsAfter i m).settled = (callsBefore i m).settled ++ [(id, o)]

/-- A frame is taken out of the pipe of the connection. -/
def Heard (moments : Moments ε) (frame : Json) : Prop :=
  ∃ m ∈ moments, Reads i m.before m.after frame

/-- What a frame with the number of a call does: nothing to the calls, and no call is completed. -/
def Ignores (c : Connection) (id : Nat) : Prop :=
  ∀ frame : Json, (frame.get? "id").bind Json.nat? = some id →
    (receive frame c).2.calls = c.calls ∧ ∀ id' o, (receive frame c).1 ≠ .response id' o

structure Correlated (moments : Moments ε) (c : Crew (World ε) Ask Outcome) : Prop where
  numbers_nodup : ((numbersTaken i moments).map (·.2)).Nodup
  number_unique : ∀ a id id', (a, id) ∈ numbersTaken i moments →
    (a, id') ∈ numbersTaken i moments → id = id'
  registers : ∀ m ∈ moments, ∀ id, Registers i m id → (m.actor, id) ∈ numbersTaken i moments
  returned : ∀ k ask r id, c.clients[k]? = some (ask, .done r) →
    (.client k, id) ∈ numbersTaken i moments →
    (c.state.connection i).calls.pending.get? id = none
  completed_once : moments.Pairwise fun m m' => ∀ id, Completes i m id → ¬ Completes i m' id
  replies : ∀ k ask r, c.clients[k]? = some (ask, .done r) → IsReply r →
    ∃ id frame o, (.client k, id) ∈ numbersTaken i moments ∧ Heard i moments frame ∧
      Message.classify frame = some (.response id o) ∧ r = respond ask.method o
  left : ∀ m ∈ moments, ∀ id, Leaves i m id →
    (c.state.connection i).calls.pending.get? id = none ∧ Ignores (c.state.connection i) id

end

/-! ### What holds all along -/

variable {i : Nat} {moments : Moments ε} {w : World ε} {c c' : Crew (World ε) Ask Outcome}
  {P : Actor → Party} {a : Actor}

theorem numbersTaken_append_singleton (m : Moment (World ε)) :
    numbersTaken i (moments ++ [m]) =
      numbersTaken i moments ++ numberTaken m.actor (callsBefore i m) (callsAfter i m) := by
  simp [numbersTaken]

theorem Heard.append_singleton {frame : Json} (m : Moment (World ε)) (h : Heard i moments frame) :
    Heard i (moments ++ [m]) frame := by
  obtain ⟨m', hm', hreads⟩ := h
  exact ⟨m', List.mem_append_left _ hm', hreads⟩

/-- What is true of a run, its last state, and the stages that its members have come to. -/
structure Account (i : Nat) (moments : Moments ε) (P : Actor → Party)
    (c : Crew (World ε) Ask Outcome) : Prop where
  staged : Staged (discipline ε i) (fun a p r => Returned a.method p r) P c
  sound : Sound (Heard i moments) (numbersTaken i moments) P (c.state.connection i).calls
  registers : ∀ m ∈ moments, ∀ id, Registers i m id → (m.actor, id) ∈ numbersTaken i moments
  gone : ∀ m ∈ moments, ∀ id, Leaves i m id →
    ∃ method, Gone P (c.state.connection i).calls id method
  spent : ∀ m ∈ moments, ∀ id, Completes i m id → Spent P (c.state.connection i).calls id
  once : moments.Pairwise fun m m' => ∀ id, Completes i m id → ¬ Completes i m' id

theorem account_nil {server : String} (hi : i < w.connections.length)
    (hcalls : (w.connection i).calls = ofServer server) :
    Account i [] (fun _ => Party.idle) (Crew.ofState w) where
  staged := staged_ofState ⟨hi, by rw [hcalls]; exact nofun⟩
  sound := by
    rw [show ((Crew.ofState w : Crew _ Ask Outcome).state.connection i).calls = _ from hcalls]
    exact sound_ofServer server
  registers _ h := by cases h
  gone _ h := by cases h
  spent _ h := by cases h
  once := .nil

/-- The account goes on with what the one who moves does to the calls. -/
theorem Account.acts {g : Party} (h : Account i moments P c)
    (hfew : (numbersTaken i moments).length ≤ numbers)
    (hacts : (discipline ε i).Acts (P a) c.state c'.state g)
    (hstaged : Staged (discipline ε i) (fun a p r => Returned a.method p r)
      (Function.update P a g) c') :
    Account i (moments ++ [⟨a, c.state, c'.state⟩]) (Function.update P a g) c' := by
  obtain ⟨-, hacts⟩ := hacts
  let m : Moment (World ε) := ⟨a, c.state, c'.state⟩
  have hcompletes (id : Nat) (hm : Completes i m id) :
      ¬ Spent P (c.state.connection i).calls id ∧
        Spent (Function.update P a g) (c'.state.connection i).calls id := by
    obtain ⟨o, ho⟩ := hm
    exact h.sound.spent_of_completes hfew hacts ho
  -- the parts hold of the earlier moments by the account so far, of the last one by its act
  refine ⟨hstaged, ?_, ?_, ?_, ?_, ?_⟩
  · rw [numbersTaken_append_singleton]
    refine (h.sound.mono fun f hf => hf.append_singleton m).acts hfew (fun f hf => ?_) hacts
    exact ⟨m, List.mem_append_right _ (List.mem_singleton_self m), hf⟩
  · intro m' hm' id hregisters
    rw [numbersTaken_append_singleton]
    refine List.mem_append_left _ ?_
    rcases List.mem_append.1 hm' with hm' | hm'
    · exact h.registers m' hm' id hregisters
    · rw [List.mem_singleton] at hm'
      subst hm'
      exact h.sound.mem_taken_of_registers hacts hregisters.1 hregisters.2
  · intro m' hm' id hleaves
    rcases List.mem_append.1 hm' with hm' | hm'
    · obtain ⟨method, hgone⟩ := h.gone m' hm' id hleaves
      exact ⟨method, h.sound.gone_acts hfew hacts hgone⟩
    · rw [List.mem_singleton] at hm'
      subst hm'
      exact h.sound.gone_of_leaves hacts hleaves.1 hleaves.2
  · intro m' hm' id hcomp
    rcases List.mem_append.1 hm' with hm' | hm'
    · exact h.sound.spent_acts hfew hacts (h.spent m' hm' id hcomp)
    · rw [List.mem_singleton] at hm'
      subst hm'
      exact (hcompletes id hcomp).2
  · refine List.pairwise_append.2 ⟨h.once, List.pairwise_singleton _ _, fun m' hm' m'' hm'' => ?_⟩
    rw [List.mem_singleton] at hm''
    subst hm''
    exact fun id hcomp hagain => (hcompletes id hagain).1 (h.spent m' hm' id hcomp)

theorem acts_of_move (h : Staged (discipline ε i) (fun a p r => Returned a.method p r) P c)
    (hmove : Move (rules ε i) c a c') :
    ∃ g, (discipline ε i).Acts (P a) c.state c'.state g ∧
      Staged (discipline ε i) (fun a p r => Returned a.method p r) (Function.update P a g) c' :=
  hmove.staged_acts (obeys_rules ε i) (fun _ _ _ _ h => h) h

/-- Every run of a new connection has its account. -/
theorem exists_account {server : String} (hi : i < w.connections.length)
    (hcalls : (w.connection i).calls = ofServer server)
    (run : Run (rules ε i) (Crew.ofState w) moments c)
    (hfew : (numbersTaken i moments).length ≤ numbers) : ∃ P, Account i moments P c := by
  induction run with
  | nil => exact ⟨_, account_nil hi hcalls⟩
  | move run hmove ih =>
    rw [numbersTaken_append_singleton, List.length_append] at hfew
    obtain ⟨P, h⟩ := ih (by omega)
    obtain ⟨g, hacts, hstaged⟩ := acts_of_move h.staged hmove
    exact ⟨_, h.acts (by omega) hacts hstaged⟩

theorem number_of_classify {frame : Json} {id : Nat} {o : Except ResponseError Json}
    (h : Message.classify frame = some (.response id o)) :
    (frame.get? "id").bind Json.nat? = some id := by
  unfold Message.classify at h
  split at h
  · next j hj _ =>
    obtain ⟨id', hid', h⟩ := Option.bind_eq_some_iff.1 h
    obtain ⟨o', -, heq⟩ := Option.bind_eq_some_iff.1 h
    cases heq
    rw [hj]
    exact hid'
  · cases h
  · cases h
  · cases h

/-- A frame with a number that is not registered is ignored, whatever it is. -/
theorem ignores_of_not_pending {c : Connection} {id : Nat}
    (h : c.calls.pending.get? id = none) : Ignores c id := by
  intro frame hid
  unfold receive
  split
  · exact ⟨rfl, fun _ _ h => by cases h⟩
  · next id' outcome hclass =>
    rw [number_of_classify hclass] at hid
    cases hid
    rw [takeResponse, Calls.take, h]
    exact ⟨rfl, fun _ _ h => by cases h⟩
  · exact ⟨rfl, fun _ _ h => by cases h⟩
  · split
    · split
      · exact ⟨calls_takePublish _ _, fun _ _ h => by cases h⟩
      · exact ⟨rfl, fun _ _ h => by cases h⟩
    · exact ⟨rfl, fun _ _ h => by cases h⟩

/-- Requests and responses belong together, in whatever order the programs of a connection and
everything else move. -/
theorem correlated {server : String} (hi : i < w.connections.length)
    (hcalls : (w.connection i).calls = ofServer server)
    (run : Run (rules ε i) (Crew.ofState w) moments c)
    (hfew : (numbersTaken i moments).length < numbers) : Correlated i moments c := by
  have hle := Nat.le_of_lt hfew
  obtain ⟨P, h⟩ := exists_account hi hcalls run hle
  have hreturned (k : Nat) (ask : Ask) (r : Outcome)
      (hk : c.clients[k]? = some (ask, .done r)) : Returned ask.method (P (.client k)) r :=
    h.staged.clients.follows k ask _ hk
  exact {
    numbers_nodup := h.sound.numbers ▸ nodup_numberAfter hle
    number_unique := fun a id id' hid hid' => by
      rw [h.sound.mem_taken] at hid hid'
      exact Option.some.inj (hid.symm.trans hid')
    registers := h.registers
    returned := fun k ask r id hk hid =>
      h.sound.pending_eq_none hle ((h.sound.mem_taken _ _).1 hid) fun method =>
        (hreturned k ask r hk).stops id method
    completed_once := h.once
    replies := fun k ask r hk hreply => by
      obtain ⟨id, hover⟩ := (hreturned k ask r hk).reply hreply
      have hid : (.client k, id) ∈ numbersTaken i moments :=
        (h.sound.mem_taken _ _).2 (by rw [hover]; rfl)
      -- an outcome that is an answer was heard of from the server
      cases h.sound.outcome _ _ _ _ hover with
      | response hheard hclass => exact ⟨id, _, _, hid, hheard, hclass, rfl⟩
      | closed he => exact absurd hreply (not_isAnswer_of_isClosed he)
    left := fun m hm id hleaves => by
      obtain ⟨method, hnone, -⟩ := h.gone m hm id hleaves
      exact ⟨hnone, ignores_of_not_pending hnone⟩ }

/-- A new connection in a world of its own. -/
def alone : World Unit :=
  { World.ofFiles FileTree.empty () with
    pipes := [Pipe.empty, Pipe.empty]
    connections := [make ⟨"server", ⟨"/"⟩, "plaintext", [], 30000, none⟩ 0 1 none 0] }

/-- The server answers the first request with null. -/
def answerFirst : World Unit → World Unit :=
  World.onPipe 0 fun p => p.push (Frame.write (Message.ofResult (.nat 1) .null))

/-- A request is made, written, answered, and returns. -/
def oneExchange : List (Choice (rules Unit 0)) :=
  [.serve (writer 0) .writer, .serve (reader 0) .reader,
    .enter ⟨"hover", none, Token.never, none⟩] ++
  List.replicate 9 (.client 0) ++ List.replicate 4 (.service 0) ++
  [.outside answerFirst fun _ => ⟨Nat.le_refl _, rfl⟩] ++
  List.replicate 4 (.service 1) ++ List.replicate 2 (.client 0)

theorem correlated_oneExchange :
    (play oneExchange ([], Crew.ofState alone)).2.clients =
        [(⟨"hover", none, Token.never, none⟩, .done (.ok .null))] ∧
      numbersTaken 0 (play oneExchange ([], Crew.ofState alone)).1 = [(.client 0, 1)] ∧
      Correlated 0 (play oneExchange ([], Crew.ofState alone)).1
        (play oneExchange ([], Crew.ofState alone)).2 := by
  have htaken : numbersTaken 0 (play oneExchange ([], Crew.ofState alone)).1 =
      [(.client 0, 1)] := by rfl
  have hcalls : (alone.connection 0).calls = ofServer "server" := rfl
  have hfew : [((.client 0 : Actor), 1)].length < numbers := by decide
  refine ⟨by rfl, htaken, ?_⟩
  exact correlated (show 0 < alone.connections.length from Nat.zero_lt_one) hcalls
    (run_play oneExchange .nil) (htaken ▸ hfew)

end LspClient.Connection
