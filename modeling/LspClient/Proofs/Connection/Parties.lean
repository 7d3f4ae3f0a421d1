import LspClient.Connection.Basic
import LspClient.Message.Basic

/-!
# Parties to the calls of a connection

What the calls of a connection look like to those who work on them. A party has a call of its own,
which comes from `idle` to `ended` by the stages of `Stage`, it may have taken in a frame, and it
holds the calls it has taken out and is to complete, with their outcomes. To close the connection it
sees to it first that there is an error to end with, and then learns which (`Notice`).

`Acts` lists what a party may do to the calls. What follows is said once for all its cases, and is
all that is used of it afterwards: what can happen to a stage, to a registered call, to a call that
is held, to an outcome, and to the end.
-/

namespace LspClient

/-- The failure of a call whose connection was shut down, or has ended. -/
def Failure.IsClosed : Failure → Prop
  | .connectionClosed .. => True
  | _ => False

namespace Calls

abbrev Outcome := Except Failure Json

/-- What a response is to the caller of a method. -/
def respond (method : String) (r : Except ResponseError Json) : Outcome :=
  r.mapError fun e => .protocol method e.code e.message

theorem eq_of_register {c c' : Calls} {id : Nat} {method : String}
    (h : c.register id method = .ok c') :
    c' = { c with pending := c.pending.put id method } := by
  unfold register at h
  split at h
  · cases h
  · exact (Except.ok.inj h).symm

theorem eq_of_collect {c c' : Calls} {id : Nat} {o : Outcome}
    (h : c.collect id = some (o, c')) :
    c.settled.get? id = some o ∧ c' = { c with settled := c.settled.erase id } := by
  obtain ⟨o', ho, heq⟩ := Option.map_eq_some_iff.1 h
  obtain ⟨rfl, rfl⟩ := Prod.mk.inj heq
  exact ⟨ho, rfl⟩

/-- How far a call has come. -/
inductive Stage where
  | idle
  | numbered (id : Nat)
  | waiting (id : Nat) (method : String)
  /-- No longer registered, nor to be again; with the outcome if its caller has it. -/
  | ended (id : Nat) (method : String) (outcome : Option Outcome)

namespace Stage

def id? : Stage → Option Nat
  | .idle => none
  | .numbered id => some id
  | .waiting id _ => some id
  | .ended id _ _ => some id

/-- The call was registered under a number, for a method. -/
def Was (s : Stage) (id : Nat) (method : String) : Prop :=
  match s with
  | .waiting i m => i = id ∧ m = method
  | .ended i m _ => i = id ∧ m = method
  | _ => False

/-- The call is registered, or was taken out, and is not given up. -/
def Waits : Stage → Prop
  | .waiting _ _ => True
  | _ => False

def giveUp : Stage → Stage
  | .waiting id method => .ended id method none
  | s => s

theorem Was.id? {s : Stage} {id : Nat} {method : String} (h : s.Was id method) :
    s.id? = some id := by
  cases s with
  | idle => cases h
  | numbered => cases h
  | waiting => exact congrArg some h.1
  | ended => exact congrArg some h.1

theorem Was.method_unique {s : Stage} {id : Nat} {m m' : String} (h : s.Was id m)
    (h' : s.Was id m') : m = m' := by
  cases s with
  | idle => cases h
  | numbered => cases h
  | waiting => exact h.2.symm.trans h'.2
  | ended => exact h.2.symm.trans h'.2

@[simp] theorem id?_giveUp (s : Stage) : s.giveUp.id? = s.id? := by cases s <;> rfl

theorem Was.giveUp {s : Stage} {id : Nat} {method : String} (h : s.Was id method) :
    s.giveUp.Was id method := by
  cases s <;> exact h

end Stage

/-- What the call of a number may get when the frames of `heard` were taken in: a response to it,
or the news that its connection is closed. -/
inductive Earned (heard : Json → Prop) (id : Nat) (method : String) : Outcome → Prop
  | response {f : Json} {r : Except ResponseError Json} (h : heard f)
      (hf : Message.classify f = some (.response id r)) : Earned heard id method (respond method r)
  | closed {e : Failure} (he : e.IsClosed) : Earned heard id method (.error e)

theorem Earned.mono {heard heard' : Json → Prop} {id : Nat} {method : String} {o : Outcome}
    (hsub : ∀ f, heard f → heard' f) (h : Earned heard id method o) :
    Earned heard' id method o := by
  cases h with
  | response hf hclass => exact .response (hsub _ hf) hclass
  | closed he => exact .closed he

/-- The calls of a table, which are all to fail. -/
def failing (e : Failure) (t : Table Nat String) : List (Nat × Outcome) :=
  t.map fun x => (x.1, .error e)

theorem map_fst_failing (e : Failure) (t : Table Nat String) :
    (failing e t).map (·.1) = t.map (·.1) := by
  rw [failing, List.map_map]
  rfl

/-- The calls end with the failure of a closed connection. -/
def EndsClosed (c : Calls) : Prop := ∀ e ∈ c.closeError, e.IsClosed

theorem isClosed_closedError {c : Calls} (hc : c.EndsClosed) : c.closedError.IsClosed := by
  unfold closedError
  cases he : c.closeError with
  | none => trivial
  | some e => exact hc e he

theorem endsClosed_recordEnd {c : Calls} {stderr : Option String} (hc : c.EndsClosed) :
    (c.recordEnd stderr).EndsClosed := by
  intro e he
  cases he
  cases hclose : c.closeError with
  | none => trivial
  | some e => exact hc e hclose

/-- What one knows of the error that the connection ends with. -/
inductive Notice where
  | nothing
  /-- There is one. -/
  | recorded
  | learned (e : Failure)

/-- One who works on the calls. -/
structure Party where
  call : Stage
  /-- A frame that was taken in, but not looked at yet. -/
  frame : Option Json
  /-- The calls taken out, with the outcomes they are to get. -/
  held : List (Nat × Outcome)
  notice : Notice

def Party.idle : Party := ⟨.idle, none, [], .nothing⟩

/-- The party has come to a stage with its own call, and holds no others. -/
def Party.IsAt (p : Party) (s : Stage) : Prop := p.call = s ∧ p.held = []

/-- The party has no call to wait for, and none to complete. -/
def Party.IsFree (p : Party) : Prop := ¬ p.call.Waits ∧ p.held = []

theorem Party.IsAt.isFree {p : Party} {s : Stage} (h : p.IsAt s) (hs : ¬ s.Waits) : p.IsFree :=
  ⟨h.1 ▸ hs, h.2⟩

/-- What a party may do, where it may take in the frames of `Reads`. One who waits for a call of its
own takes nothing out. -/
inductive Acts (Reads : Json → Prop) : Party → Calls → Calls → Party → Prop
  | rest {p : Party} {c : Calls} : Acts Reads p c c p
  | number {p : Party} {c : Calls} (h : p.call = .idle) :
      Acts Reads p c c.number.2 { p with call := .numbered c.nextId }
  | register {p : Party} {c c' : Calls} {id : Nat} {method : String} (h : p.call = .numbered id)
      (hc : c.register id method = .ok c') :
      Acts Reads p c c' { p with call := .waiting id method }
  | collect {p : Party} {c c' : Calls} {id : Nat} {method : String} {o : Outcome}
      (h : p.call = .waiting id method) (hc : c.collect id = some (o, c')) :
      Acts Reads p c c' { p with call := .ended id method (some o) }
  | abandon {p : Party} {c : Calls} {id : Nat} {method : String} (h : p.call.Was id method) :
      Acts Reads p c (c.abandon id).2 { p with call := p.call.giveUp }
  | read {p : Party} {c : Calls} {f : Json} (hf : Reads f) :
      Acts Reads p c c { p with frame := some f }
  | pass {p : Party} {c : Calls} : Acts Reads p c c { p with frame := none }
  | take {p : Party} {c : Calls} {f : Json} {id : Nat} {method : String}
      {r : Except ResponseError Json} (h : p.frame = some f)
      (hf : Message.classify f = some (.response id r)) (hc : c.pending.get? id = some method)
      (hp : ¬ p.call.Waits) : Acts Reads p c (c.take id).2
        { p with frame := none, held := (id, respond method r) :: p.held }
  | drain {p : Party} {c : Calls} {e : Failure} (he : e.IsClosed) (hp : ¬ p.call.Waits) :
      Acts Reads p c c.drain.2
        { p with held := failing e c.drain.1 ++ p.held }
  | close {p : Party} {c : Calls} {e : Failure} (h : p.notice = .learned e) (he : e.IsClosed)
      (hp : ¬ p.call.Waits) :
      Acts Reads p c c.close.2
        { p with held := failing e c.close.1 ++ p.held }
  | complete {p : Party} {c : Calls} {id : Nat} {o : Outcome} {rest : List (Nat × Outcome)}
      (h : p.held = (id, o) :: rest) : Acts Reads p c (c.complete id o) { p with held := rest }
  | recordEnd {p : Party} {c : Calls} {stderr : Option String} :
      Acts Reads p c (c.recordEnd stderr) { p with notice := .recorded }
  | learn {p : Party} {c : Calls} (h : p.notice = .recorded) :
      Acts Reads p c c { p with notice := .learned c.closedError }
  | beginClosing {p : Party} {c : Calls} : Acts Reads p c c.beginClosing.2 p

namespace Acts

variable {Reads : Json → Prop} {p g : Party} {c c' : Calls} {id : Nat} {method : String}

/-! ### The number and the stage of a call -/

theorem was (h : Acts Reads p c c' g) (hw : p.call.Was id method) : g.call.Was id method := by
  cases h with
  | number hp => rw [hp] at hw; cases hw
  | register hp => rw [hp] at hw; cases hw
  | collect hp => rw [hp] at hw; exact hw
  | abandon => exact hw.giveUp
  | _ => exact hw

/-- The number is the next one if it is new. -/
theorem id? (h : Acts Reads p c c' g) :
    (c'.nextId = c.nextId ∧ g.call.id? = p.call.id?) ∨
      (c'.nextId = (c.nextId + 1) % numbers ∧ p.call.id? = none ∧
        g.call.id? = some c.nextId) := by
  cases h with
  | number hp => exact .inr ⟨rfl, by rw [hp]; rfl, rfl⟩
  | register hp hc => exact .inl ⟨by rw [eq_of_register hc], by rw [hp]; rfl⟩
  | collect hp hc => exact .inl ⟨by rw [(eq_of_collect hc).2], by rw [hp]; rfl⟩
  | abandon => exact .inl ⟨rfl, Stage.id?_giveUp _⟩
  | _ => exact .inl ⟨rfl, rfl⟩

/-- An outcome that a caller has was given to it. -/
theorem outcome {o : Outcome} (h : Acts Reads p c c' g)
    (hg : g.call = .ended id method (some o)) :
    p.call = .ended id method (some o) ∨
      (p.call = .waiting id method ∧ (id, o) ∈ c.settled) := by
  cases h with
  | number => cases hg
  | register => cases hg
  | collect hp hc =>
    cases hg
    exact .inr ⟨hp, Table.mem_of_get? (eq_of_collect hc).1⟩
  | abandon =>
    cases hcall : p.call <;> rw [hcall] at hg <;> cases hg
    exact .inl rfl
  | _ => exact .inl hg

theorem frame {f : Json} (h : Acts Reads p c c' g) (hg : g.frame = some f) :
    p.frame = some f ∨ Reads f := by
  cases h with
  | read hf => cases hg; exact .inr hf
  | pass => cases hg
  | take => cases hg
  | _ => exact .inl hg

/-! ### Registered calls -/

/-- A call is registered only by the one who has its number. As long as it is registered its
caller waits, unless its outcome is there. -/
theorem pending (h : Acts Reads p c c' g) (hc' : c'.pending.get? id = some method) :
    (c.pending.get? id = some method ∧
      (p.call = .waiting id method → g.call = .waiting id method ∨ ∃ o, (id, o) ∈ c.settled)) ∨
    (p.call = .numbered id ∧ g.call = .waiting id method) := by
  -- only registering and whatever takes entries out touch the pending calls
  cases h with
  | number hp => exact .inl ⟨hc', fun hw => by rw [hp] at hw; cases hw⟩
  | @register _ id' method' hp hc =>
    rw [eq_of_register hc] at hc'
    by_cases hid : id' = id
    · subst hid
      rw [Table.get?_put_self] at hc'
      cases hc'
      exact .inr ⟨hp, rfl⟩
    · rw [Table.get?_put_ne _ _ hid] at hc'
      exact .inl ⟨hc', fun hw => by rw [hp] at hw; cases hw⟩
  | @collect _ id' _ o hp hc =>
    obtain ⟨hset, heq⟩ := eq_of_collect hc
    rw [heq] at hc'
    refine .inl ⟨hc', fun hw => .inr ⟨o, ?_⟩⟩
    rw [hp] at hw
    cases hw
    exact Table.mem_of_get? hset
  | @abandon id' method' hp =>
    by_cases hid : id' = id
    · subst hid
      rw [Calls.abandon, Table.get?_erase_self] at hc'
      cases hc'
    · rw [Calls.abandon, Table.get?_erase_ne _ hid] at hc'
      exact .inl ⟨hc', fun hw => by rw [hw] at hp; exact absurd hp.1.symm hid⟩
  | @take _ id' _ _ _ _ _ =>
    by_cases hid : id' = id
    · subst hid
      rw [Calls.take, Table.get?_erase_self] at hc'
      cases hc'
    · rw [Calls.take, Table.get?_erase_ne _ hid] at hc'
      exact .inl ⟨hc', .inl⟩
  | drain => cases hc'
  | close => cases hc'
  | _ => exact .inl ⟨hc', .inl⟩

theorem nodup_pending (h : Acts Reads p c c' g) (hc : (c.pending.map (·.1)).Nodup) :
    (c'.pending.map (·.1)).Nodup := by
  cases h with
  | register _ hr => rw [eq_of_register hr]; exact Table.nodup_keys_put _ _ hc
  | collect _ hr => rw [(eq_of_collect hr).2]; exact hc
  | abandon => exact Table.nodup_keys_erase _ hc
  | take => exact Table.nodup_keys_erase _ hc
  | drain => exact List.nodup_nil
  | close => exact List.nodup_nil
  | _ => exact hc

/-! ### Calls that are held -/

/-- The call of `e` was registered, and is taken out. -/
def TakesOut (p : Party) (c c' : Calls) (e : Nat × Outcome) : Prop :=
  ∃ method, c.pending.get? e.1 = some method ∧ c'.pending.get? e.1 = none ∧
    Earned (fun f => p.frame = some f) e.1 method e.2

theorem takesOut_of_mem_failing {e : Failure} {x : Nat × Outcome} (he : e.IsClosed)
    (hc' : c'.pending = []) (hx : x ∈ failing e c.pending) : TakesOut p c c' x := by
  obtain ⟨y, hy, rfl⟩ := List.mem_map.1 hx
  obtain ⟨method, hmethod⟩ := Option.ne_none_iff_exists'.1 (Table.get?_ne_none_of_mem hy)
  exact ⟨method, hmethod, by rw [hc']; rfl, .closed he⟩

/-- A party keeps what it holds, takes calls out, or completes the first call that it holds. -/
theorem held (h : Acts Reads p c c' g) (hnodup : (c.pending.map (·.1)).Nodup) :
    (g.held = p.held ∧ c'.settled.Sublist c.settled) ∨
    (∃ new, g.held = new ++ p.held ∧ (new.map (·.1)).Nodup ∧
      (∀ e ∈ new, TakesOut p c c' e) ∧ c'.settled = c.settled) ∨
    (∃ e, p.held = e :: g.held ∧ c'.settled = c.settled ++ [e]) := by
  have hids (e : Failure) : ((failing e c.pending).map (·.1)).Nodup := by
    rwa [map_fst_failing]
  cases h with
  | register _ hc =>
    obtain rfl := eq_of_register hc
    exact .inl ⟨rfl, .refl _⟩
  | collect _ hc => exact .inl ⟨rfl, by rw [(eq_of_collect hc).2]; exact List.filter_sublist⟩
  | abandon => exact .inl ⟨rfl, List.filter_sublist⟩
  | @take f id method r hp hf hc =>
    refine .inr (.inl ⟨[(id, respond method r)], rfl, by simp, fun e he => ?_, rfl⟩)
    rw [List.mem_singleton] at he
    subst he
    exact ⟨method, hc, Table.get?_erase_self _ _, .response hp hf⟩
  | @drain e he =>
    exact .inr (.inl ⟨_, rfl, hids e, fun x hx => takesOut_of_mem_failing he rfl hx, rfl⟩)
  | @close e _ he =>
    exact .inr (.inl ⟨_, rfl, hids e, fun x hx => takesOut_of_mem_failing he rfl hx, rfl⟩)
  | complete hp => exact .inr (.inr ⟨_, hp, rfl⟩)
  | _ => exact .inl ⟨rfl, List.Sublist.refl _⟩

/-- An outcome is given only by the one who holds the call. -/
theorem completes {e : Nat × Outcome} (h : Acts Reads p c c' g)
    (hnodup : (c.pending.map (·.1)).Nodup) (hc' : c'.settled = c.settled ++ [e]) :
    p.held = e :: g.held := by
  rcases h.held hnodup with ⟨-, hsub⟩ | ⟨new, -, -, -, heq⟩ | ⟨e', hp, heq⟩
  · have hlen := hsub.length_le
    rw [hc', List.length_append, List.length_singleton] at hlen
    omega
  · rw [hc'] at heq
    simp at heq
  · rw [hc'] at heq
    have he : e = e' := by simpa using heq
    rw [he]
    exact hp

/-- Who waits takes nothing out. -/
theorem held_of_waits (h : Acts Reads p c c' g) (hp : p.call.Waits) : g.held <:+ p.held := by
  cases h with
  | take _ _ _ hnot => exact absurd hp hnot
  | drain _ hnot => exact absurd hp hnot
  | close _ _ hnot => exact absurd hp hnot
  | complete hheld => exact hheld ▸ List.suffix_cons _ _
  | _ => exact List.suffix_rfl

/-! ### The end -/

theorem endsClosed (h : Acts Reads p c c' g) (hc : c.EndsClosed) : c'.EndsClosed := by
  cases h with
  | register _ hr => rw [eq_of_register hr]; exact hc
  | collect _ hr => rw [(eq_of_collect hr).2]; exact hc
  | recordEnd => exact endsClosed_recordEnd hc
  | _ => exact hc

/-- The error that the connection ends with does not change. -/
theorem closeError {e : Failure} (h : Acts Reads p c c' g) (hc : c.closeError = some e) :
    c'.closeError = some e := by
  cases h with
  | register _ hr => rw [eq_of_register hr]; exact hc
  | collect _ hr => rw [(eq_of_collect hr).2]; exact hc
  | recordEnd => simp [Calls.recordEnd, hc]
  | _ => exact hc

/-- Once the connection is closed, nothing is registered. -/
theorem closed (h : Acts Reads p c c' g) (hc : c.closed = true) (hpending : c.pending = []) :
    c'.closed = true ∧ c'.pending = [] := by
  cases h with
  | register _ hr => simp [Calls.register, hc] at hr
  | collect _ hr => rw [(eq_of_collect hr).2]; exact ⟨hc, hpending⟩
  | abandon => exact ⟨hc, by simp [Calls.abandon, Table.erase, hpending]⟩
  | take => exact ⟨hc, by simp [Calls.take, Table.erase, hpending]⟩
  | drain => exact ⟨hc, rfl⟩
  | close => exact ⟨rfl, rfl⟩
  | _ => exact ⟨hc, hpending⟩

/-- Who closes the connection has learned its error, and holds all calls with it. -/
theorem closes (h : Acts Reads p c c' g) (hc : c.closed = false) (hc' : c'.closed = true) :
    ∃ e, p.notice = .learned e ∧ c' = c.close.2 ∧ g.held = failing e c.pending ++ p.held := by
  cases h with
  | register _ hr => rw [eq_of_register hr] at hc'; cases hc.symm.trans hc'
  | collect _ hr => rw [(eq_of_collect hr).2] at hc'; cases hc.symm.trans hc'
  | close hp => exact ⟨_, hp, rfl, rfl⟩
  | _ => cases hc.symm.trans hc'

/-- What is known of the error: there is one after it was recorded, and then it can be learned. -/
theorem notice (h : Acts Reads p c c' g) :
    g.notice = p.notice ∨ (g.notice = .recorded ∧ c'.closeError ≠ none) ∨
      (p.notice = .recorded ∧ g.notice = .learned c.closedError ∧ c' = c) := by
  cases h with
  | recordEnd => exact .inr (.inl ⟨rfl, by simp [Calls.recordEnd]⟩)
  | learn hp => exact .inr (.inr ⟨hp, rfl, rfl⟩)
  | _ => exact .inl rfl

end Acts

end Calls

end LspClient
