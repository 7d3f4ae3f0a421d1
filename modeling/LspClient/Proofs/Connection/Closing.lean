import LspClient.Proofs.Connection.Correlation

/-!
# The end of a connection

A connection is closed by a sweep, in the step that takes all calls out of the table. There may be
several sweeps at a time: each sees to it that there is an error to end with, learns which one it
is, and only then closes. So the first error counts, whoever closes (`Closure`).

`Terminal` says of a run with a moment after which the connection is closed what holds from then on:
the error stays, nothing is registered any more, the calls that were taken out by the step that
closed are completed with the error by the one who took it, and who asks for something from then on
fails with the error. It holds of all runs of a new connection (`terminal`).
-/

namespace LspClient

namespace Calls

/-- The connection has ended with an error, and no call waits. -/
structure EndedWith (e : Failure) (c : Calls) : Prop where
  closed : c.closed = true
  pending : c.pending = []
  error : c.closeError = some e

theorem EndedWith.closedError {e : Failure} {c : Calls} (h : EndedWith e c) :
    c.closedError = e := by
  simp [Calls.closedError, h.error]

section

variable {ι : Type} {Reads : Json → Prop} {P : ι → Party} {c c' : Calls} {a : ι} {p g : Party}
  {e : Failure} {id : Nat} {o : Outcome}

theorem EndedWith.acts (h : EndedWith e c) (hacts : Acts Reads p c c' g) : EndedWith e c' := by
  obtain ⟨hclosed, hpending⟩ := hacts.closed h.closed h.pending
  exact ⟨hclosed, hpending, hacts.closeError h.error⟩

/-- What parties know of the end is so, and who has closed knew it. -/
structure Closure (P : ι → Party) (c : Calls) : Prop where
  recorded : ∀ a, (P a).notice = .recorded → c.closeError ≠ none
  learned : ∀ a e, (P a).notice = .learned e → c.closeError = some e
  ended : c.closed = true → ∃ e, EndedWith e c

theorem closure_ofServer (server : String) :
    Closure (fun _ : ι => Party.idle) (ofServer server) where
  recorded a h := by cases h
  learned a e h := by cases h
  ended h := by cases h

/-- An error that was recorded is there to be learned. -/
theorem Closure.closeError_eq (h : Closure P c) (ha : (P a).notice = .recorded) :
    c.closeError = some c.closedError := by
  obtain ⟨e, he⟩ := Option.ne_none_iff_exists'.1 (h.recorded a ha)
  simp [Calls.closedError, he]

theorem Closure.ended_acts (h : Closure P c) (hacts : Acts Reads (P a) c c' g)
    (hc' : c'.closed = true) : ∃ e, EndedWith e c' := by
  cases hc : c.closed with
  | true =>
    obtain ⟨e, hended⟩ := h.ended hc
    exact ⟨e, hended.acts hacts⟩
  | false =>
    obtain ⟨e, hlearned, heq, -⟩ := hacts.closes hc hc'
    refine ⟨e, hc', ?_, hacts.closeError (h.learned a e hlearned)⟩
    rw [heq]
    rfl

theorem Closure.acts [DecidableEq ι] (h : Closure P c) (hacts : Acts Reads (P a) c c' g) :
    Closure (Function.update P a g) c' := by
  have hkeep (hne : c.closeError ≠ none) : c'.closeError ≠ none := by
    obtain ⟨e, he⟩ := Option.ne_none_iff_exists'.1 hne
    simp [hacts.closeError he]
  refine ⟨fun b hb => ?_, fun b e hb => ?_, h.ended_acts hacts⟩
  · rcases of_update (fun p : Party => p.notice = .recorded) hb with ⟨rfl, hnew⟩ | ⟨-, hb⟩
    · rcases hacts.notice with hsame | ⟨-, hne⟩ | ⟨-, hlearned, -⟩
      · exact hkeep (h.recorded b (hsame ▸ hnew))
      · exact hne
      · cases hlearned.symm.trans hnew
    · exact hkeep (h.recorded b hb)
  · rcases of_update (fun p : Party => p.notice = .learned e) hb with ⟨rfl, hnew⟩ | ⟨-, hb⟩
    · rcases hacts.notice with hsame | ⟨hrecorded, -⟩ | ⟨hrecorded, hlearned, heq⟩
      · exact hacts.closeError (h.learned b e (hsame ▸ hnew))
      · cases hrecorded.symm.trans hnew
      · cases hlearned.symm.trans hnew
        rw [heq]
        exact h.closeError_eq hrecorded
    · exact hacts.closeError (h.learned b e hb)

/-! ### What is held when nothing is registered any more -/

/-- What a party holds was held before, as nobody can take out anything. -/
theorem Acts.mem_held (hacts : Acts Reads p c c' g) (hpending : c.pending = [])
    (hmem : (id, o) ∈ g.held) : (id, o) ∈ p.held := by
  rcases hacts.held (by simp [hpending]) with ⟨heq, -⟩ | ⟨new, heq, -, hnew, -⟩ | ⟨x, heq, -⟩
  · rwa [heq] at hmem
  · rw [heq] at hmem
    rcases List.mem_append.1 hmem with hmem | hmem
    · obtain ⟨method, hmethod, -⟩ := hnew _ hmem
      simp [hpending, Table.get?] at hmethod
    · exact hmem
  · rw [heq]
    exact List.mem_cons_of_mem x hmem

/-- What a party holds no longer was completed. -/
theorem Acts.completes_of_not_mem (hacts : Acts Reads p c c' g) (hpending : c.pending = [])
    (hp : (id, o) ∈ p.held) (hg : (id, o) ∉ g.held) : c'.settled = c.settled ++ [(id, o)] := by
  rcases hacts.held (by simp [hpending]) with ⟨heq, -⟩ | ⟨new, heq, -⟩ | ⟨x, heq, hsettled⟩
  · exact absurd (heq ▸ hp) hg
  · exact absurd (heq ▸ List.mem_append_right new hp) hg
  · rw [heq] at hp
    rcases List.mem_cons.1 hp with rfl | hp
    · exact hsettled
    · exact absurd hp hg

/-- The calls that are taken out by the step that closes are held, with the error that counts. -/
theorem Closure.holds_of_closes (h : Closure P c) (hacts : Acts Reads (P a) c c' g)
    (hc : c.closed = false) (hc' : EndedWith e c') (hid : c.pending.get? id ≠ none) :
    (id, .error e) ∈ g.held ∧ c'.settled = c.settled := by
  obtain ⟨e', hlearned, heq, hheld⟩ := hacts.closes hc hc'.closed
  have he' : c'.closeError = some e' := hacts.closeError (h.learned a e' hlearned)
  obtain rfl : e' = e := Option.some.inj (he'.symm.trans hc'.error)
  obtain ⟨method, hmethod⟩ := Option.ne_none_iff_exists'.1 hid
  refine ⟨?_, by rw [heq]; rfl⟩
  rw [hheld]
  exact List.mem_append_left _ (List.mem_map.2 ⟨_, Table.mem_of_get? hmethod, rfl⟩)

end

end Calls

namespace Connection

open Calls Crew

variable {ε : Type}

/-- A call is given an outcome. -/
def CompletesWith (i : Nat) (m : Moment (World ε)) (id : Nat) (o : Outcome) : Prop :=
  (callsAfter i m).settled = (callsBefore i m).settled ++ [(id, o)]

/-- The only step that the program can take ends it with an error. -/
def FailsAtOnce {α : Type} (p : Work ε (Except Failure α)) (w : World ε) (e : Failure) : Prop :=
  ∀ w' p' started, Program.Step w p w' p' started ↔ w' = w ∧ p' = .done (.error e) ∧ started = []

/-- What holds from the moment `m` on, after which the connection is closed. -/
structure Terminal (i : Nat) (e : Failure) (earlier : Moments ε) (m : Moment (World ε))
    (later : Moments ε) (c : Crew (World ε) Ask Outcome) : Prop where
  isClosed : e.IsClosed
  ended : EndedWith e (callsAfter i m)
  stays : ∀ m' ∈ later, EndedWith e (callsBefore i m') ∧ EndedWith e (callsAfter i m')
  lasts : EndedWith e (c.state.connection i).calls
  registers_none : ∀ m' ∈ later, ∀ id, ¬ Registers i m' id
  /-- The calls that were taken out by the step that closed. -/
  drained : (callsBefore i m).closed = false → ∀ id, (callsBefore i m).pending.get? id ≠ none →
    c.IsOver m.actor → ∃ m' ∈ later, m'.actor = m.actor ∧ CompletesWith i m' id (.error e)
  /-- They get nothing else, neither before nor afterwards, if numbers do not start anew. -/
  only : (callsBefore i m).closed = false → ∀ id, (callsBefore i m).pending.get? id ≠ none →
    (numbersTaken i (earlier ++ m :: later)).length ≤ numbers →
    (∀ m' ∈ earlier ++ [m], ¬ Completes i m' id) ∧
      ∀ m' ∈ later, ∀ o, CompletesWith i m' id o → o = .error e
  request_fails : ∀ method params token timeout,
    FailsAtOnce (request i method params token timeout) c.state e
  notify_fails : ∀ method params, FailsAtOnce (notify i method params) c.state e
  /-- Requests of those who enter later. -/
  latecomers : ∀ k ask r, c.clients[k]? = some (ask, .done r) →
    (∀ m' ∈ earlier ++ [m], m'.actor ≠ .client k) → r = .error e

/-! ### Asking too late -/

variable {i : Nat} {e : Failure} {moments earlier later : Moments ε} {m : Moment (World ε)}
  {w w' : World ε} {c c' : Crew (World ε) Ask Outcome} {P : Actor → Party} {a : Actor}

theorem usable_of_ended {c : Connection} (h : EndedWith e c.calls) : c.usable = .error e := by
  simp [usable, isAlive, Calls.isAlive, h.closed, h.closedError]

theorem request_failsAtOnce (h : EndedWith e (w.connection i).calls) (method : String)
    (params : Option Json) (token : Token) (timeout : Option Nat) :
    FailsAtOnce (request i method params token timeout) w e := by
  intro w' p' started
  refine Program.step_act_bind.trans ?_
  simp only [usable_of_ended h]
  rfl

theorem notify_failsAtOnce (h : EndedWith e (w.connection i).calls) (method : String)
    (params : Option Json) : FailsAtOnce (notify i method params) w e := by
  intro w' p' started
  refine Program.step_act_bind.trans ?_
  simp only [usable_of_ended h]
  rfl

/-- Who has entered at `n` or later has not asked yet, or has failed. -/
def AskTooLate (i : Nat) (e : Failure) (n : Nat) (c : Crew (World ε) Ask Outcome) : Prop :=
  ∀ k ask p, n ≤ k → c.clients[k]? = some (ask, p) →
    p = (rules ε i).program ask ∨ p = .done (.error e)

theorem AskTooLate.move {n : Nat} (h : AskTooLate i e n c)
    (hended : EndedWith e (c.state.connection i).calls) (hmove : Move (rules ε i) c a c') :
    AskTooLate i e n c' := by
  intro k ask p hk hkp
  cases hmove with
  | enter x =>
    rcases Nat.lt_or_ge k c.clients.length with hlt | hge
    · rw [List.getElem?_append_left hlt] at hkp
      exact h k ask p hk hkp
    · rw [List.getElem?_append_right hge] at hkp
      obtain heq := List.mem_singleton.1 (List.mem_of_getElem? hkp)
      cases heq
      exact .inl rfl
  | @client j x q q' s started hj hstep =>
    by_cases hkj : k = j
    · subst hkj
      rw [List.getElem?_set_self (List.getElem?_eq_some_iff.1 hj).1] at hkp
      cases hkp
      rcases h k ask q hk hj with rfl | rfl
      · exact .inr ((request_failsAtOnce hended _ _ _ _ _ _ _).1 hstep).2.1
      · cases hstep
    · rw [List.getElem?_set_ne (Ne.symm hkj)] at hkp
      exact h k ask p hk hkp
  | _ => exact h k ask p hk hkp

/-! ### What holds all along -/

/-- What is true of a run, its last state, and the stages that its members have come to. -/
structure Winding (i : Nat) (moments : Moments ε) (P : Actor → Party)
    (c : Crew (World ε) Ask Outcome) : Prop where
  staged : Staged (discipline ε i) (fun a p r => Returned a.method p r) P c
  closure : Closure P (c.state.connection i).calls
  account : (numbersTaken i moments).length ≤ numbers → Account i moments P c

theorem Winding.acts {g : Party} (h : Winding i moments P c)
    (hacts : (discipline ε i).Acts (P a) c.state c'.state g)
    (hstaged : Staged (discipline ε i) (fun a p r => Returned a.method p r)
      (Function.update P a g) c') :
    Winding i (moments ++ [⟨a, c.state, c'.state⟩]) (Function.update P a g) c' := by
  refine ⟨hstaged, h.closure.acts hacts.2, fun hfew => ?_⟩
  rw [numbersTaken_append_singleton, List.length_append] at hfew
  have hbefore : (numbersTaken i moments).length ≤ numbers := by omega
  exact (h.account hbefore).acts hbefore hacts hstaged

theorem exists_winding {server : String} (hi : i < w.connections.length)
    (hcalls : (w.connection i).calls = ofServer server)
    (run : Run (rules ε i) (Crew.ofState w) moments c) : ∃ P, Winding i moments P c := by
  induction run with
  | nil =>
    have haccount := account_nil (ε := ε) hi hcalls
    refine ⟨_, haccount.staged, ?_, fun _ => haccount⟩
    rw [show ((Crew.ofState w : Crew _ Ask Outcome).state.connection i).calls = _ from hcalls]
    exact closure_ofServer server
  | move run hmove ih =>
    obtain ⟨P, h⟩ := ih
    obtain ⟨g, hacts, hstaged⟩ := acts_of_move h.staged hmove
    exact ⟨_, h.acts hacts hstaged⟩

theorem held_of_isOver (h : Staged (discipline ε i) (fun a p r => Returned a.method p r) P c)
    (hover : c.IsOver a) : (P a).held = [] := by
  cases a with
  | client k =>
    obtain ⟨ask, r, hk⟩ := hover
    have hreturned : Returned ask.method (P (.client k)) r := h.clients.follows k ask _ hk
    exact hreturned.held
  | service k =>
    obtain ⟨body, again, hk⟩ := hover
    have hrenews : Renews (discipline ε i) body (P (.service k)) again :=
      h.services.follows k body _ hk
    exact hrenews.1.1
  | outside => cases hover

/-! ### What holds from the moment on at which the connection was closed -/

/-- The calls in `Drained` were taken out by `a` when it closed; clients from `n` on came later. -/
structure Aftermath (i : Nat) (e : Failure) (a : Actor) (Drained : Nat → Prop) (few : Prop)
    (n : Nat) (later : Moments ε) (P : Actor → Party) (c : Crew (World ε) Ask Outcome) :
    Prop where
  staged : Staged (discipline ε i) (fun a p r => Returned a.method p r) P c
  ended : EndedWith e (c.state.connection i).calls
  stays : ∀ m ∈ later, EndedWith e (callsBefore i m) ∧ EndedWith e (callsAfter i m)
  held : ∀ id, Drained id → (id, .error e) ∈ (P a).held ∨
    ∃ m ∈ later, m.actor = a ∧ CompletesWith i m id (.error e)
  only : few → ∀ id, Drained id → (∀ b o, (id, o) ∈ (P b).held → o = .error e) ∧
    ∀ m ∈ later, ∀ o, CompletesWith i m id o → o = .error e
  late : AskTooLate i e n c

section Aftermath

variable {b : Actor} {Drained : Nat → Prop} {few : Prop} {n : Nat}

theorem Aftermath.held_acts {g : Party} (h : Aftermath i e b Drained few n later P c)
    (hacts : (discipline ε i).Acts (P a) c.state c'.state g) {id : Nat} (hid : Drained id) :
    (id, .error e) ∈ (Function.update P a g b).held ∨
      ∃ m ∈ later ++ [⟨a, c.state, c'.state⟩], m.actor = b ∧
        CompletesWith i m id (.error e) := by
  rcases h.held id hid with hheld | ⟨m, hm, hcompletes⟩
  · by_cases hba : b = a
    · subst hba
      rw [Function.update_self]
      by_cases hg : (id, .error e) ∈ g.held
      · exact .inl hg
      · have hcompletes := hacts.2.completes_of_not_mem h.ended.pending hheld hg
        exact .inr ⟨_, List.mem_append_right _ (List.mem_singleton_self _), rfl, hcompletes⟩
    · rw [Function.update_of_ne hba]
      exact .inl hheld
  · exact .inr ⟨m, List.mem_append_left _ hm, hcompletes⟩

theorem Aftermath.only_acts {g : Party} (h : Aftermath i e b Drained few n later P c)
    (hacts : (discipline ε i).Acts (P a) c.state c'.state g) (hfew : few) {id : Nat}
    (hid : Drained id) :
    (∀ d o, (id, o) ∈ (Function.update P a g d).held → o = .error e) ∧
      ∀ m ∈ later ++ [⟨a, c.state, c'.state⟩], ∀ o, CompletesWith i m id o → o = .error e := by
  obtain ⟨hheld, hlater⟩ := h.only hfew id hid
  constructor
  · intro d o ho
    rcases of_update (fun p : Party => (id, o) ∈ p.held) ho with ⟨rfl, hnew⟩ | ⟨-, ho⟩
    · exact hheld d o (hacts.2.mem_held h.ended.pending hnew)
    · exact hheld d o ho
  · intro m hm o ho
    rcases List.mem_append.1 hm with hm | hm
    · exact hlater m hm o ho
    · rw [List.mem_singleton] at hm
      subst hm
      have hp : (P a).held = (id, o) :: g.held :=
        hacts.2.completes (by simp [h.ended.pending]) ho
      exact hheld a o (hp ▸ List.mem_cons_self)

theorem Aftermath.move (h : Aftermath i e b Drained few n later P c)
    (hmove : Move (rules ε i) c a c') :
    ∃ P', Aftermath i e b Drained few n (later ++ [⟨a, c.state, c'.state⟩]) P' c' := by
  obtain ⟨g, hacts, hstaged⟩ := acts_of_move h.staged hmove
  have hended : EndedWith e (c'.state.connection i).calls := h.ended.acts hacts.2
  refine ⟨_, hstaged, hended, fun m hm => ?_, fun id hid => h.held_acts hacts hid,
    fun hfew id hid => h.only_acts hacts hfew hid, h.late.move h.ended hmove⟩
  rcases List.mem_append.1 hm with hm | hm
  · exact h.stays m hm
  · rw [List.mem_singleton] at hm
    subst hm
    exact ⟨h.ended, hended⟩

theorem exists_aftermath {c₂ : Crew (World ε) Ask Outcome}
    (h : Aftermath i e b Drained few n [] P c₂) (run : Run (rules ε i) c₂ later c) :
    ∃ P', Aftermath i e b Drained few n later P' c := by
  induction run with
  | nil => exact ⟨P, h⟩
  | move run hmove ih =>
    obtain ⟨P', h'⟩ := ih
    exact h'.move hmove

end Aftermath

/-- A call that is taken out by the step that closes was not completed before. -/
theorem not_completes_of_closes {g : Party} (h : Winding i moments P c)
    (hacts : (discipline ε i).Acts (P a) c.state c'.state g)
    (hended : EndedWith e (c'.state.connection i).calls)
    (hopen : (c.state.connection i).calls.closed = false) {id : Nat}
    (hid : (c.state.connection i).calls.pending.get? id ≠ none)
    (hfew : (numbersTaken i (moments ++ [⟨a, c.state, c'.state⟩])).length ≤ numbers) :
    ∀ m ∈ moments ++ [⟨a, c.state, c'.state⟩], ¬ Completes i m id := by
  intro m hm hcompletes
  rcases List.mem_append.1 hm with hm | hm
  · rw [numbersTaken_append_singleton, List.length_append] at hfew
    obtain ⟨⟨method, hnone, -⟩, -⟩ := (h.account (by omega)).spent m hm id hcompletes
    exact hid hnone
  · rw [List.mem_singleton] at hm
    subst hm
    obtain ⟨o, ho⟩ := hcompletes
    rw [callsAfter, callsBefore, (h.closure.holds_of_closes hacts.2 hopen hended hid).2] at ho
    simp at ho

/-- The aftermath of a move after which the connection is closed. -/
theorem aftermath_of_winding {g : Party} (h : Winding i moments P c)
    (hacts : (discipline ε i).Acts (P a) c.state c'.state g)
    (hstaged : Staged (discipline ε i) (fun a p r => Returned a.method p r)
      (Function.update P a g) c')
    (hended : EndedWith e (c'.state.connection i).calls) :
    Aftermath i e a
      (fun id => (c.state.connection i).calls.closed = false ∧
        (c.state.connection i).calls.pending.get? id ≠ none)
      ((numbersTaken i (moments ++ [⟨a, c.state, c'.state⟩])).length ≤ numbers)
      c'.clients.length [] (Function.update P a g) c' := by
  refine ⟨hstaged, hended, by simp, fun id ⟨hopen, hid⟩ => ?_, fun hfew id ⟨hopen, hid⟩ => ?_, ?_⟩
  · rw [Function.update_self]
    exact .inl (h.closure.holds_of_closes hacts.2 hopen hended hid).1
  · refine ⟨fun d o ho => ?_, by simp⟩
    -- the one who closed is the only one to hold the call, and holds it once
    have hsound := ((h.acts hacts hstaged).account hfew).sound
    have hmem : (id, .error e) ∈ (Function.update P a g a).held := by
      rw [Function.update_self]
      exact (h.closure.holds_of_closes hacts.2 hopen hended hid).1
    have hda : d = a := hsound.holder_unique d a id (List.mem_map_of_mem ho)
      (List.mem_map_of_mem hmem)
    subst hda
    have heq := List.inj_on_of_nodup_map (hsound.nodup_held d) ho hmem rfl
    exact congrArg Prod.snd heq
  · intro k ask p hk hkp
    have hlt := (List.getElem?_eq_some_iff.1 hkp).1
    omega

/-- The end of a connection is final: from the moment on at which it is closed, nothing is
registered, the calls that were taken out then fail with the one error that counts, and so does
whatever is asked for later. -/
theorem terminal {server : String} (hi : i < w.connections.length)
    (hcalls : (w.connection i).calls = ofServer server)
    (run : Run (rules ε i) (Crew.ofState w) (earlier ++ m :: later) c)
    (hclosed : (callsAfter i m).closed = true) : ∃ e, Terminal i e earlier m later c := by
  obtain ⟨a, c₁, c₂, rfl, hearlier, hmove, hlater⟩ := run.split
  obtain ⟨P, h⟩ := exists_winding hi hcalls hearlier
  obtain ⟨g, hacts, hstaged⟩ := acts_of_move h.staged hmove
  -- the error is there from this move on, and what follows only looks at it
  obtain ⟨e, hended⟩ := (h.acts hacts hstaged).closure.ended hclosed
  obtain ⟨P', hend⟩ := exists_aftermath (aftermath_of_winding h hacts hstaged hended) hlater
  refine ⟨e, hstaged.inv.2 e hended.error, hended, hend.stays, hend.ended, ?_, ?_, ?_,
    request_failsAtOnce hend.ended, notify_failsAtOnce hend.ended, ?_⟩
  · rintro m' hm' id ⟨-, hne⟩
    rw [(hend.stays m' hm').2.pending] at hne
    exact hne rfl
  · intro hopen id hid hover
    -- a call that is over holds no number any more
    rcases hend.held id ⟨hopen, hid⟩ with hheld | hcompleted
    · rw [held_of_isOver hend.staged hover] at hheld
      cases hheld
    · exact hcompleted
  · intro hopen id hid hfew
    rw [List.append_cons, numbersTaken, List.flatMap_append, List.length_append] at hfew
    have hfew' := Nat.le_trans (Nat.le_add_right _ _) hfew
    exact ⟨not_completes_of_closes h hacts hended hopen hid hfew',
      (hend.only hfew' id ⟨hopen, hid⟩).2⟩
  · intro k ask r hk hlast
    -- the call entered after the closing
    have hn : c₂.clients.length ≤ k := by
      by_contra hlt
      have hsome := List.getElem?_eq_getElem (Nat.lt_of_not_le hlt)
      obtain ⟨m', hm', hactor⟩ := (hearlier.move hmove).entered rfl hsome
      exact hlast m' hm' hactor
    rcases hend.late k ask _ hn hk with hrequest | hdone
    · cases hrequest
    · cases hdone
      rfl

/-- The server closes its end of the pipe. -/
def hangUp : World Unit → World Unit := World.onPipe 0 Pipe.closeSource

theorem serves_writer : (rules Unit 0).Serves (writer 0) := .writer

theorem serves_reader : (rules Unit 0).Serves (reader 0) := .reader

theorem outside_hangUp (w : World Unit) : (rules Unit 0).Outside w (hangUp w) :=
  ⟨Nat.le_refl _, rfl⟩

/-- A request waits while the server hangs up; another one is made afterwards. -/
def hungUp : List (Choice (rules Unit 0)) :=
  [.serve (writer 0) serves_writer, .serve (reader 0) serves_reader,
    .enter ⟨"hover", none, Token.never, none⟩] ++
  List.replicate 9 (.client 0) ++ [.outside hangUp outside_hangUp] ++
  List.replicate 8 (.service 1) ++
  [.enter ⟨"hover", none, Token.never, none⟩, .client 1]

theorem terminal_hungUp : ∃ (earlier : Moments Unit) (m : Moment (World Unit))
    (later : Moments Unit) (c : Crew (World Unit) Ask Outcome),
    (callsBefore 0 m).pending = [(1, "hover")] ∧ (callsAfter 0 m).closed = true ∧
      ∃ e, Terminal 0 e earlier m later c := by
  let moments := (play hungUp ([], Crew.ofState alone)).1
  have hpending : ((moments.drop 18).head?.map fun m => (callsBefore 0 m).pending) =
      some [(1, "hover")] := by decide +kernel
  have hclosed : ((moments.drop 18).head?.map fun m => (callsAfter 0 m).closed) =
      some true := by decide +kernel
  cases hdrop : moments.drop 18 with
  | nil =>
    rw [hdrop] at hpending
    cases hpending
  | cons m later =>
    rw [hdrop] at hpending hclosed
    have hafter : (callsAfter 0 m).closed = true := Option.some.inj hclosed
    have run := run_play hungUp (Run.nil : Run _ (Crew.ofState alone) [] _)
    rw [show (play hungUp ([], Crew.ofState alone)).1 = moments.take 18 ++ m :: later by
      rw [← hdrop]; exact (List.take_append_drop 18 moments).symm] at run
    have hcalls : (alone.connection 0).calls = ofServer "server" := rfl
    exact ⟨_, m, later, _, Option.some.inj hpending, hafter,
      terminal (show 0 < alone.connections.length from Nat.zero_lt_one) hcalls run hafter⟩

end Connection

end LspClient
