import LspClient.Proofs.Connection.Parties
import LspClient.Proofs.Program.Crew
import Mathlib.Data.List.Nodup

/-!
# The invariant of calls

Whatever parties do to the calls of a connection, in whatever order, `Sound` holds of the calls and
the parties. It counts the numbers taken so far, each by its party, and says of every call that is
registered that its caller waits for it, and of every call that was taken out that it is held by one
party at most, that it is not registered any more, and that its outcome is earned.

That a call is out of the table (`Gone`) and that it was completed (`Spent`) stay true once they
are. This rests on the numbers: who could register the call again is its caller, who has passed on.
-/

namespace LspClient.Calls

variable {ι : Type}

/-- The number of a call that is made after `n` others. -/
def numberAfter (n : Nat) : Nat := (n + 1) % numbers

theorem nodup_numberAfter {n : Nat} (hn : n ≤ numbers) :
    ((List.range n).map numberAfter).Nodup := by
  refine List.Nodup.map_on (fun i hi j hj h => ?_) List.nodup_range
  rw [List.mem_range] at hi hj
  simp only [numberAfter, numbers] at h hn
  omega

/-- The number that a party takes by an action. -/
def numberTaken (a : ι) (c c' : Calls) : List (ι × Nat) :=
  if c'.nextId = c.nextId then [] else [(a, c.nextId)]

theorem numberTaken_eq {a : ι} {c c' : Calls} (hnew : c'.nextId = (c.nextId + 1) % numbers) :
    numberTaken a c c' = [(a, c.nextId)] := by
  refine if_neg fun h => ?_
  rw [hnew] at h
  simp only [numbers] at h
  omega

/-- The call was registered for a method, and is not any more. -/
def Gone (P : ι → Party) (c : Calls) (id : Nat) (method : String) : Prop :=
  c.pending.get? id = none ∧ ∃ a, (P a).call.Was id method

/-- The call was completed, or nobody is left who could. -/
def Spent (P : ι → Party) (c : Calls) (id : Nat) : Prop :=
  (∃ method, Gone P c id method) ∧ ∀ a, id ∉ (P a).held.map (·.1)

/-- The call of `e` is gone, and its outcome is earned. -/
def Resolved (heard : Json → Prop) (P : ι → Party) (c : Calls) (e : Nat × Outcome) : Prop :=
  ∃ method, Gone P c e.1 method ∧ Earned heard e.1 method e.2

structure Sound (heard : Json → Prop) (taken : List (ι × Nat)) (P : ι → Party) (c : Calls) :
    Prop where
  nextId : c.nextId = numberAfter taken.length
  numbers : taken.map (·.2) = (List.range taken.length).map numberAfter
  mem_taken : ∀ a id, (a, id) ∈ taken ↔ (P a).call.id? = some id
  waits : ∀ id method, c.pending.get? id = some method → ∃ a, (P a).call = .waiting id method
  keys : (c.pending.map (·.1)).Nodup
  held : ∀ a, ∀ e ∈ (P a).held, Resolved heard P c e
  settled : ∀ e ∈ c.settled, Resolved heard P c e
  nodup_held : ∀ a, ((P a).held.map (·.1)).Nodup
  holder_unique : ∀ a b id, id ∈ (P a).held.map (·.1) → id ∈ (P b).held.map (·.1) → a = b
  outcome : ∀ a id method o, (P a).call = .ended id method (some o) → Earned heard id method o
  frame : ∀ a f, (P a).frame = some f → heard f
  endsClosed : c.EndsClosed

section

variable {heard heard' Reads : Json → Prop} {taken : List (ι × Nat)} {P : ι → Party}
  {c c' : Calls} {a b : ι} {g : Party} {id : Nat} {method : String}

theorem sound_ofServer (server : String) :
    Sound heard [] (fun _ : ι => Party.idle) (ofServer server) where
  nextId := rfl
  numbers := rfl
  mem_taken a id := by simp [Party.idle, Stage.id?]
  waits id method h := by cases h
  keys := List.nodup_nil
  held a e he := by cases he
  settled e he := by cases he
  nodup_held _ := List.nodup_nil
  holder_unique a b id h := by cases h
  outcome a id method o h := by cases h
  frame a f h := by cases h
  endsClosed e he := by cases he

theorem Resolved.mono {e : Nat × Outcome} (hsub : ∀ f, heard f → heard' f)
    (h : Resolved heard P c e) : Resolved heard' P c e := by
  obtain ⟨method, hgone, hearned⟩ := h
  exact ⟨method, hgone, hearned.mono hsub⟩

theorem Sound.mono (hsub : ∀ f, heard f → heard' f) (h : Sound heard taken P c) :
    Sound heard' taken P c :=
  { h with
    held := fun a e he => (h.held a e he).mono hsub
    settled := fun e he => (h.settled e he).mono hsub
    outcome := fun a id method o ho => (h.outcome a id method o ho).mono hsub
    frame := fun a f hf => hsub f (h.frame a f hf) }

namespace Sound

/-- Nobody else has the number of a call. -/
theorem caller_unique (h : Sound heard taken P c) (hfew : taken.length ≤ Calls.numbers)
    (ha : (P a).call.id? = some id) (hb : (P b).call.id? = some id) : a = b := by
  have hnodup : (taken.map (·.2)).Nodup := h.numbers ▸ nodup_numberAfter hfew
  have heq :=
    List.inj_on_of_nodup_map hnodup ((h.mem_taken a id).2 ha) ((h.mem_taken b id).2 hb) rfl
  exact congrArg Prod.fst heq

/-- A call whose caller does not wait for it is not registered. -/
theorem pending_eq_none (h : Sound heard taken P c) (hfew : taken.length ≤ Calls.numbers)
    (ha : (P a).call.id? = some id) (hwait : ∀ method, (P a).call ≠ .waiting id method) :
    c.pending.get? id = none := by
  by_contra hne
  obtain ⟨method, hmethod⟩ := Option.ne_none_iff_exists'.1 hne
  obtain ⟨b, hb⟩ := h.waits id method hmethod
  have hab : a = b := h.caller_unique hfew ha (by rw [hb]; rfl)
  exact hwait method (hab ▸ hb)

theorem nextId_acts (h : Sound heard taken P c) (hacts : Acts Reads (P a) c c' g) :
    c'.nextId = numberAfter (taken ++ numberTaken a c c').length := by
  rcases hacts.id? with ⟨hsame, -⟩ | ⟨hnew, -, -⟩
  · rw [numberTaken, if_pos hsame, List.append_nil, hsame, h.nextId]
  · rw [numberTaken_eq hnew, hnew, h.nextId, List.length_append, List.length_singleton]
    simp only [numberAfter, Calls.numbers]
    omega

theorem numbers_acts (h : Sound heard taken P c) (hacts : Acts Reads (P a) c c' g) :
    (taken ++ numberTaken a c c').map (·.2) =
      (List.range (taken ++ numberTaken a c c').length).map numberAfter := by
  rcases hacts.id? with ⟨hsame, -⟩ | ⟨hnew, -, -⟩
  · rw [numberTaken, if_pos hsame, List.append_nil, h.numbers]
  · rw [numberTaken_eq hnew, List.length_append, List.length_singleton, List.range_succ,
      List.map_append, List.map_append, h.numbers, h.nextId]
    rfl

/-- Who registers a call has its number. -/
theorem mem_taken_of_registers (h : Sound heard taken P c) (hacts : Acts Reads (P a) c c' g)
    (hc : c.pending.get? id = none) (hc' : c'.pending.get? id ≠ none) : (a, id) ∈ taken := by
  obtain ⟨method, hmethod⟩ := Option.ne_none_iff_exists'.1 hc'
  rcases hacts.pending hmethod with ⟨hsome, -⟩ | ⟨hnumbered, -⟩
  · rw [hc] at hsome
    cases hsome
  · rw [h.mem_taken, hnumbered]
    rfl

theorem get?_of_mem_held (h : Sound heard taken P c) (hid : id ∈ (P b).held.map (·.1)) :
    c.pending.get? id = none := by
  obtain ⟨e, he, rfl⟩ := List.mem_map.1 hid
  obtain ⟨_, ⟨hnone, -⟩, -⟩ := h.held b e he
  exact hnone

variable [DecidableEq ι]

theorem was_update (hacts : Acts Reads (P a) c c' g) (hb : (P b).call.Was id method) :
    (Function.update P a g b).call.Was id method := by
  by_cases hab : b = a
  · subst hab
    rw [Function.update_self]
    exact hacts.was hb
  · rwa [Function.update_of_ne hab]

/-- What is gone stays gone. -/
theorem gone_acts (h : Sound heard taken P c) (hfew : taken.length ≤ Calls.numbers)
    (hacts : Acts Reads (P a) c c' g) (hgone : Gone P c id method) :
    Gone (Function.update P a g) c' id method := by
  obtain ⟨hnone, b, hb⟩ := hgone
  refine ⟨?_, b, was_update hacts hb⟩
  by_contra hne
  obtain ⟨method', hpending⟩ := Option.ne_none_iff_exists'.1 hne
  rcases hacts.pending hpending with ⟨hsome, -⟩ | ⟨hnumbered, -⟩
  · rw [hnone] at hsome
    cases hsome
  · -- the one who registers it has its number, but has not registered it before
    have hab : a = b := h.caller_unique hfew (by rw [hnumbered]; rfl) hb.id?
    rw [← hab, hnumbered] at hb
    cases hb

/-- What leaves the table is gone. -/
theorem gone_of_leaves (h : Sound heard taken P c) (hacts : Acts Reads (P a) c c' g)
    (hc : c.pending.get? id ≠ none) (hc' : c'.pending.get? id = none) :
    ∃ method, Gone (Function.update P a g) c' id method := by
  obtain ⟨method, hmethod⟩ := Option.ne_none_iff_exists'.1 hc
  obtain ⟨b, hb⟩ := h.waits id method hmethod
  have hwas : (P b).call.Was id method := by
    rw [hb]
    exact ⟨rfl, rfl⟩
  exact ⟨method, hc', b, was_update hacts hwas⟩

theorem resolved_acts {e : Nat × Outcome} (h : Sound heard taken P c)
    (hfew : taken.length ≤ Calls.numbers) (hacts : Acts Reads (P a) c c' g)
    (he : Resolved heard P c e) : Resolved heard (Function.update P a g) c' e := by
  obtain ⟨method, hgone, hearned⟩ := he
  exact ⟨method, h.gone_acts hfew hacts hgone, hearned⟩

theorem mem_taken_acts (h : Sound heard taken P c) (hacts : Acts Reads (P a) c c' g) (b : ι)
    (id : Nat) : (b, id) ∈ taken ++ numberTaken a c c' ↔
      (Function.update P a g b).call.id? = some id := by
  rcases hacts.id? with ⟨hsame, hid⟩ | ⟨hnew, hnone, hid⟩
  · rw [numberTaken, if_pos hsame, List.append_nil, h.mem_taken]
    by_cases hab : b = a
    · subst hab
      rw [Function.update_self, hid]
    · rw [Function.update_of_ne hab]
  · rw [numberTaken_eq hnew, List.mem_append, List.mem_singleton, h.mem_taken]
    by_cases hab : b = a
    · subst hab
      rw [Function.update_self, hid, hnone, Prod.mk.injEq]
      exact ⟨fun h => h.elim nofun fun h => congrArg some h.2.symm,
        fun h => .inr ⟨rfl, (Option.some.inj h).symm⟩⟩
    · rw [Function.update_of_ne hab]
      exact or_iff_left fun heq => hab (congrArg Prod.fst heq)

/-! ### Registered calls, and calls that are held -/

theorem waits_acts (h : Sound heard taken P c) (hacts : Acts Reads (P a) c c' g)
    (hpending : c'.pending.get? id = some method) :
    ∃ b, (Function.update P a g b).call = .waiting id method := by
  rcases hacts.pending hpending with ⟨hsome, hkeep⟩ | ⟨-, hwaiting⟩
  · obtain ⟨b, hb⟩ := h.waits id method hsome
    refine ⟨b, ?_⟩
    by_cases hab : b = a
    · subst hab
      rw [Function.update_self]
      rcases hkeep hb with hwaiting | ⟨o, ho⟩
      · exact hwaiting
      · obtain ⟨_, ⟨hnone, -⟩, -⟩ := h.settled _ ho
        rw [hnone] at hsome
        cases hsome
    · rwa [Function.update_of_ne hab]
  · exact ⟨a, by rw [Function.update_self]; exact hwaiting⟩

/-- Who holds a call after an action held it before, or has just taken it out. -/
theorem held_acts (h : Sound heard taken P c) (hacts : Acts Reads (P a) c c' g)
    (hid : id ∈ (Function.update P a g b).held.map (·.1)) :
    id ∈ (P b).held.map (·.1) ∨ (b = a ∧ c.pending.get? id ≠ none) := by
  rcases of_update (fun p : Party => id ∈ p.held.map (·.1)) hid with ⟨rfl, hid'⟩ | ⟨-, hid⟩
  · rcases hacts.held h.keys with ⟨hheld, -⟩ | ⟨new, hheld, -, hnew, -⟩ | ⟨e, hheld, -⟩
    · rw [hheld] at hid'
      exact .inl hid'
    · rw [hheld, List.map_append, List.mem_append] at hid'
      rcases hid' with hid | hid
      · obtain ⟨e, he, rfl⟩ := List.mem_map.1 hid
        obtain ⟨method, hsome, -⟩ := hnew e he
        exact .inr ⟨rfl, by rw [hsome]; exact nofun⟩
      · exact .inl hid
    · rw [hheld, List.map_cons]
      exact .inl (List.mem_cons_of_mem _ hid')
  · exact .inl hid

theorem holder_unique_acts (h : Sound heard taken P c) (hacts : Acts Reads (P a) c c' g)
    {b b' : ι} (hb : id ∈ (Function.update P a g b).held.map (·.1))
    (hb' : id ∈ (Function.update P a g b').held.map (·.1)) : b = b' := by
  rcases h.held_acts hacts hb with hold | ⟨hba, hne⟩
  · rcases h.held_acts hacts hb' with hold' | ⟨-, hne⟩
    · exact h.holder_unique b b' id hold hold'
    · exact absurd (h.get?_of_mem_held hold) hne
  · rcases h.held_acts hacts hb' with hold' | ⟨hba', -⟩
    · exact absurd (h.get?_of_mem_held hold') hne
    · exact hba.trans hba'.symm

theorem nodup_held_acts (h : Sound heard taken P c) (hacts : Acts Reads (P a) c c' g) (b : ι) :
    ((Function.update P a g b).held.map (·.1)).Nodup := by
  by_cases hab : b = a
  · subst hab
    rw [Function.update_self]
    rcases hacts.held h.keys with ⟨hheld, -⟩ | ⟨new, hheld, hnodup, hnew, -⟩ | ⟨e, hheld, -⟩
    · rw [hheld]
      exact h.nodup_held b
    · rw [hheld, List.map_append]
      refine hnodup.append (h.nodup_held b) fun id hid hid' => ?_
      obtain ⟨e, he, rfl⟩ := List.mem_map.1 hid
      obtain ⟨method, hsome, -⟩ := hnew e he
      rw [h.get?_of_mem_held hid'] at hsome
      cases hsome
    · have hnodup := h.nodup_held b
      rw [hheld, List.map_cons] at hnodup
      exact (List.nodup_cons.1 hnodup).2
  · rw [Function.update_of_ne hab]
    exact h.nodup_held b

/-! ### Outcomes -/

/-- A call that is taken out is resolved by the outcome it is to get. -/
theorem resolved_of_takesOut {e : Nat × Outcome} (h : Sound heard taken P c)
    (hacts : Acts Reads (P a) c c' g) (he : Acts.TakesOut (P a) c c' e) :
    Resolved heard (Function.update P a g) c' e := by
  obtain ⟨method, hsome, hnone, hearned⟩ := he
  obtain ⟨b, hb⟩ := h.waits _ _ hsome
  have hwas : (P b).call.Was e.1 method := by
    rw [hb]
    exact ⟨rfl, rfl⟩
  exact ⟨method, ⟨hnone, b, was_update hacts hwas⟩, hearned.mono (h.frame a)⟩

theorem resolved_held_acts {e : Nat × Outcome} (h : Sound heard taken P c)
    (hfew : taken.length ≤ Calls.numbers) (hacts : Acts Reads (P a) c c' g)
    (he : e ∈ (Function.update P a g b).held) :
    Resolved heard (Function.update P a g) c' e := by
  rcases of_update (fun p : Party => e ∈ p.held) he with ⟨rfl, hnew'⟩ | ⟨-, he⟩
  · rcases hacts.held h.keys with ⟨hheld, -⟩ | ⟨new, hheld, -, hnew, -⟩ | ⟨e', hheld, -⟩
    · rw [hheld] at hnew'
      exact h.resolved_acts hfew hacts (h.held b e hnew')
    · rw [hheld] at hnew'
      rcases List.mem_append.1 hnew' with he | he
      · exact h.resolved_of_takesOut hacts (hnew e he)
      · exact h.resolved_acts hfew hacts (h.held b e he)
    · refine h.resolved_acts hfew hacts (h.held b e ?_)
      rw [hheld]
      exact List.mem_cons_of_mem e' hnew'
  · exact h.resolved_acts hfew hacts (h.held b e he)

theorem resolved_settled_acts {e : Nat × Outcome} (h : Sound heard taken P c)
    (hfew : taken.length ≤ Calls.numbers) (hacts : Acts Reads (P a) c c' g)
    (he : e ∈ c'.settled) : Resolved heard (Function.update P a g) c' e := by
  refine h.resolved_acts hfew hacts ?_
  rcases hacts.held h.keys with ⟨-, hsub⟩ | ⟨-, -, -, -, heq⟩ | ⟨e', hheld, heq⟩
  · exact h.settled e (hsub.mem he)
  · exact h.settled e (heq ▸ he)
  · rw [heq, List.mem_append, List.mem_singleton] at he
    rcases he with he | rfl
    · exact h.settled e he
    · exact h.held a e (by rw [hheld]; exact List.mem_cons_self)

theorem outcome_acts {o : Outcome} (h : Sound heard taken P c)
    (hfew : taken.length ≤ Calls.numbers) (hacts : Acts Reads (P a) c c' g)
    (hcall : (Function.update P a g b).call = .ended id method (some o)) :
    Earned heard id method o := by
  rcases of_update (fun p : Party => p.call = .ended id method (some o)) hcall with
    ⟨rfl, hnew⟩ | ⟨-, hcall⟩
  · rcases hacts.outcome hnew with hover | ⟨hwaiting, hmem⟩
    · exact h.outcome b id method o hover
    · -- the outcome was given for the method of the call's only caller
      obtain ⟨method', ⟨-, d, hd⟩, hearned⟩ := h.settled _ hmem
      have hwas : (P b).call.Was id method := by
        rw [hwaiting]
        exact ⟨rfl, rfl⟩
      have hbd : b = d := h.caller_unique hfew hwas.id? hd.id?
      rw [hwas.method_unique (hbd ▸ hd)]
      exact hearned
  · exact h.outcome b id method o hcall

/-- Every action keeps the invariant. -/
theorem acts (h : Sound heard taken P c) (hfew : taken.length ≤ Calls.numbers)
    (hreads : ∀ f, Reads f → heard f) (hacts : Acts Reads (P a) c c' g) :
    Sound heard (taken ++ numberTaken a c c') (Function.update P a g) c' where
  nextId := h.nextId_acts hacts
  numbers := h.numbers_acts hacts
  mem_taken := h.mem_taken_acts hacts
  waits _ _ := h.waits_acts hacts
  keys := hacts.nodup_pending h.keys
  held _ _ := h.resolved_held_acts hfew hacts
  settled _ := h.resolved_settled_acts hfew hacts
  nodup_held := h.nodup_held_acts hacts
  holder_unique _ _ _ := h.holder_unique_acts hacts
  outcome _ _ _ _ := h.outcome_acts hfew hacts
  frame b f hf := by
    rcases of_update (fun p : Party => p.frame = some f) hf with ⟨rfl, hnew⟩ | ⟨-, hf⟩
    · exact (hacts.frame hnew).elim (h.frame b f) (hreads f)
    · exact h.frame b f hf
  endsClosed := hacts.endsClosed h.endsClosed

/-! ### Calls that were completed, or taken back -/

theorem spent_acts (h : Sound heard taken P c) (hfew : taken.length ≤ Calls.numbers)
    (hacts : Acts Reads (P a) c c' g) (hspent : Spent P c id) :
    Spent (Function.update P a g) c' id := by
  obtain ⟨⟨method, hgone⟩, hnobody⟩ := hspent
  refine ⟨⟨method, h.gone_acts hfew hacts hgone⟩, fun b hb => ?_⟩
  rcases h.held_acts hacts hb with hb | ⟨-, hne⟩
  · exact hnobody b hb
  · exact hne hgone.1

/-- Who completes a call held it, and nobody holds it then. -/
theorem spent_of_completes {o : Outcome} (h : Sound heard taken P c)
    (hfew : taken.length ≤ Calls.numbers) (hacts : Acts Reads (P a) c c' g)
    (hc' : c'.settled = c.settled ++ [(id, o)]) :
    ¬ Spent P c id ∧ Spent (Function.update P a g) c' id := by
  have hheld : (P a).held = (id, o) :: g.held := hacts.completes h.keys hc'
  have hmem : id ∈ (P a).held.map (·.1) := by
    rw [hheld]
    exact List.mem_cons_self
  refine ⟨fun hspent => hspent.2 a hmem, ?_, fun b hb => ?_⟩
  · obtain ⟨method, hgone, -⟩ := h.held a (id, o) (by rw [hheld]; exact List.mem_cons_self)
    exact ⟨method, h.gone_acts hfew hacts hgone⟩
  · rcases of_update (fun p : Party => id ∈ p.held.map (·.1)) hb with ⟨rfl, hnew⟩ | ⟨hab, hb⟩
    · have hnodup := h.nodup_held b
      rw [hheld, List.map_cons] at hnodup
      exact (List.nodup_cons.1 hnodup).1 hnew
    · exact hab (h.holder_unique b a id hb hmem)

/-- A call that its own caller takes back is held by nobody, and nobody will. -/
theorem spent_of_leaves (h : Sound heard taken P c) (hfew : taken.length ≤ Calls.numbers)
    (hacts : Acts Reads (P a) c c' g) (ha : (a, id) ∈ taken)
    (hc : c.pending.get? id ≠ none) (hc' : c'.pending.get? id = none) :
    Spent (Function.update P a g) c' id := by
  refine ⟨h.gone_of_leaves hacts hc hc', fun b hb => ?_⟩
  have hnobody (d : ι) : id ∉ (P d).held.map (·.1) := fun hd => hc (h.get?_of_mem_held hd)
  rcases of_update (fun p : Party => id ∈ p.held.map (·.1)) hb with ⟨rfl, hnew⟩ | ⟨-, hb⟩
  · obtain ⟨method, hmethod⟩ := Option.ne_none_iff_exists'.1 hc
    obtain ⟨d, hd⟩ := h.waits id method hmethod
    obtain rfl : b = d := h.caller_unique hfew ((h.mem_taken b id).1 ha) (by rw [hd]; rfl)
    have hwaits : (P b).call.Waits := by
      rw [hd]
      trivial
    exact hnobody b (((hacts.held_of_waits hwaits).map _).subset hnew)
  · exact hnobody b hb

end Sound

end

end LspClient.Calls
