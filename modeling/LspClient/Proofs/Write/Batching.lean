import LspClient.Proofs.Program.Logs
import LspClient.Proofs.Program.Playing
import LspClient.Proofs.Write.Flushing

/-!
# Writing in batches

The runs of writes: anybody may write, with a batch or without, and whatever else goes on leaves the
batches alone. A write that belongs to a batch takes effect there by its first step, and this is
when it is written down. So the log tells the calls in the order in which they took effect, each
once, and in every reachable state the batches hold what it says (`Batches.Holds`).
-/

namespace LspClient.Session

open Program
open Crew (Rules Run Logged Log Move Moment Cut Choice ofState)
open World (SameBatches)
open Batches (since Queue Holds SupersededAt FlushedAt StillQueued)

variable {ε : Type}

abbrev WriteCrew (ε : Type) := Crew (World ε) WriteAsk (Except Failure WriteOutcome)

def writeRules (s : Session ε) : Rules (World ε) WriteAsk (Except Failure WriteOutcome) where
  program := s.writing
  Serves := Keeps SameBatches
  Outside := SameBatches

/-- A call is written down when it is about to take its first step. -/
inductive Calls (s : Session ε) (c : WriteCrew ε) : Actor → List BatchCall → Prop
  | call {k : Nat} {x : WriteAsk} {call : BatchCall} (hk : c.clients[k]? = some (x, s.writing x))
      (hx : s.batchCall? x = some call) : Calls s c (.client k) [call]
  | nothing {a : Actor} (h : ∀ k x, a = .client k → c.clients[k]? = some (x, s.writing x) →
      s.batchCall? x = none) : Calls s c a []

/-- The runs of writes, with the calls that took effect. -/
abbrev Batching (s : Session ε) (start : WriteCrew ε) (log : Log (World ε) BatchCall)
    (c : WriteCrew ε) : Prop :=
  Logged s.writeRules s.Calls start log c

variable {s : Session ε} {x : WriteAsk} {call : BatchCall} {c c' : WriteCrew ε} {a : Actor}
  {new : List BatchCall} {k : Nat} {p : Work ε (Except Failure WriteOutcome)}

theorem exists_calls (s : Session ε) (c : WriteCrew ε) (a : Actor) :
    ∃ new, s.Calls c a new := by
  by_cases h : ∃ k x call, a = .client k ∧ c.clients[k]? = some (x, s.writing x) ∧
      s.batchCall? x = some call
  · obtain ⟨k, x, call, rfl, hk, hx⟩ := h
    exact ⟨_, .call hk hx⟩
  · refine ⟨[], .nothing fun k x ha hk => ?_⟩
    cases hx : s.batchCall? x with
    | none => rfl
    | some call => exact absurd ⟨k, x, call, ha, hk, hx⟩ h

theorem Calls.length_le (h : s.Calls c a new) : new.length ≤ 1 := by
  cases h <;> simp

/-- A client that stands at its beginning is about to have its call written down. -/
theorem Calls.of_begin (h : s.Calls c (.client k) new)
    (hk : c.clients[k]? = some (x, s.writing x)) : new = (s.batchCall? x).toList := by
  generalize ha : Actor.client k = a at h
  cases h with
  | @call j y call hj hy =>
    cases ha
    rw [hk] at hj
    cases hj
    rw [hy, Option.toList_some]
  | nothing hnone => rw [hnone k x ha.symm hk, Option.toList_none]

/-! ### Runs of writes -/

variable {w₀ : World ε} {start : WriteCrew ε} {log earlier later : Log (World ε) BatchCall}
  {moments : List (Moment (World ε))} {before after : List BatchCall}

theorem client_cases (hs : s.LeavesBatches) (run : Run s.writeRules (ofState w₀) moments c)
    (hk : c.clients[k]? = some (x, p)) : p = s.writing x ∨ Keeps SameBatches p := by
  refine run.client_has (H := fun x p => p = s.writing x ∨ Keeps SameBatches p)
    (fun x => .inl rfl) ?_ rfl hk
  rintro x w w' p p' started hstep (rfl | hp)
  · cases hx : s.batchCall? x with
    | none => exact .inr ((keeps_writing hs hx).step .refl hstep).2.1
    | some call => exact .inr ((step_writing hx hstep).2.keeps hs)
  · exact .inr (hp.step .refl hstep).2.1

/-- A client takes a step that leaves the batches alone, unless it is about to make its call. -/
theorem keeps_client (hs : s.LeavesBatches) (run : Run s.writeRules (ofState w₀) moments c)
    (hk : c.clients[k]? = some (x, p)) (hnone : p = s.writing x → s.batchCall? x = none) :
    Keeps SameBatches p := by
  rcases client_cases hs run hk with rfl | hp
  · exact keeps_writing hs (hnone rfl)
  · exact hp

theorem keeps_services (hs : s.LeavesBatches) (run : Run s.writeRules (ofState w₀) moments c) :
    ∀ e ∈ c.services, Keeps SameBatches e.1 ∧ Keeps SameBatches e.2 := by
  refine run.services_have (fun p hp => hp) ?_ ?_ nofun
  · intro w w' p p' started hstep hp
    exact (hp.step .refl hstep).2
  · intro moments c k x p p' w' started run hk hstep
    cases hx : s.batchCall? x with
    | none => exact ((keeps_client hs run hk fun _ => hx).step .refl hstep).2.2
    | some call =>
      rcases client_cases hs run hk with rfl | hp
      · rw [(step_writing hx hstep).1]
        simp
      · exact (hp.step .refl hstep).2.2

/-- What a move does to the batches. -/
inductive Effect (s : Session ε) (c c' : WriteCrew ε) : Actor → List BatchCall → Prop
  | quiet {a : Actor} (h : SameBatches c.state c'.state) : Effect s c c' a []
  | call {k : Nat} {x : WriteAsk} {call : BatchCall} {p : Work ε (Except Failure WriteOutcome)}
      (hk : c.clients[k]? = some (x, s.writing x)) (hx : s.batchCall? x = some call)
      (hstep : FirstStep s x.token call c.state c'.state p) : Effect s c c' (.client k) [call]

theorem Calls.effect (hs : s.LeavesBatches) (run : Run s.writeRules (ofState w₀) moments c)
    (hmove : Move s.writeRules c a c') (h : s.Calls c a new) : s.Effect c c' a new := by
  cases h with
  | @call k x call hk hx =>
    obtain ⟨p, started, hstep, -⟩ := hmove.of_client hk
    exact .call hk hx (step_writing hx hstep).2
  | nothing hnone =>
    refine .quiet ?_
    cases hmove with
    | client hk hstep =>
      have hkeeps := keeps_client hs run hk fun hp => hnone _ _ rfl (hp ▸ hk)
      exact (hkeeps.step .refl hstep).1
    | service hk hstep =>
      have hkeeps := (keeps_services hs run _ (List.mem_of_getElem? hk)).2
      exact (hkeeps.step .refl hstep).1
    | outside h => exact h
    | _ => exact .refl _

theorem holds_of_batching (hs : s.LeavesBatches) (hempty : w₀.batches = [])
    (h : s.Batching (ofState w₀) log c) : Holds log.notes c.state.batches := by
  induction h with
  | nil =>
    rw [Crew.Log.notes_nil, Crew.ofState, hempty]
    exact Batches.holds_nil
  | move run hmove hnew ih =>
    rw [Crew.Log.notes_append, Crew.Log.notes_cons, Crew.Log.notes_nil, List.append_nil]
    cases hnew.effect hs run.run hmove with
    | quiet hsame => rwa [List.append_nil, hsame]
    | call _ _ hstep =>
      exact hstep.holds ih

theorem quiet_of_batching (hs : s.LeavesBatches) (h : s.Batching (ofState w₀) log c) :
    ∀ e ∈ log, e.2 = [] → SameBatches e.1.before e.1.after := by
  induction h with
  | nil => nofun
  | move run hmove hnew ih =>
    intro e he hnone
    rcases List.mem_append.1 he with he | he
    · exact ih e he hnone
    · obtain rfl := List.mem_singleton.1 he
      cases hnew.effect hs run.run hmove with
      | quiet hsame => exact hsame
      | call => cases hnone

/-- A client that is not there has not called. -/
theorem notesOf_eq_nil (h : s.Batching (ofState w₀) log c) (hk : c.clients[k]? = none) :
    log.notesOf (.client k) = [] := by
  induction h with
  | nil => rfl
  | @move log new c c' a run hmove hnew ih =>
    have hbefore : c.clients[k]? = none := by
      rcases hk' : c.clients[k]? with _ | ⟨x, p⟩
      · rfl
      · obtain ⟨p', hp'⟩ := hmove.client_stays hk'
        rw [hk] at hp'
        cases hp'
    by_cases ha : a = .client k
    · subst ha
      rw [Crew.Log.notesOf_append_self, ih hbefore]
      cases hnew with
      | call hk' => simp [hbefore] at hk'
      | nothing => rfl
    · rw [Crew.Log.notesOf_append_ne ha, ih hbefore]

/-- The calls of a client: none before its first step, and its own from then on. -/
theorem notesOf_of_batching (hs : s.LeavesBatches) (h : s.Batching (ofState w₀) log c)
    (hk : c.clients[k]? = some (x, p)) :
    (p = s.writing x ∧ log.notesOf (.client k) = []) ∨
      (Keeps SameBatches p ∧ log.notesOf (.client k) = (s.batchCall? x).toList) := by
  -- by induction on the log: a call has its one note when its first step is done
  induction h generalizing p with
  | nil => simp [ofState] at hk
  | @move log new c c' a run hmove hnew ih =>
    by_cases ha : a = .client k
    · subst ha
      rw [Crew.Log.notesOf_append_self]
      rcases hmove.client_cases hk with ⟨hlast, rfl⟩ | ⟨q, hq, -⟩
      · have hnone : c.clients[k]? = none := by simp [hlast]
        refine .inl ⟨rfl, ?_⟩
        rw [notesOf_eq_nil run hnone]
        cases hnew with
        | call hk' => simp [hnone] at hk'
        | nothing => rfl
      · obtain ⟨p', started, hstep, hp'⟩ := hmove.of_client hq
        rw [hk] at hp'
        cases hp'
        rcases ih hq with ⟨rfl, hnone⟩ | ⟨hkeeps, hcalls⟩
        · rw [hnone, hnew.of_begin hq, List.nil_append]
          refine .inr ⟨?_, rfl⟩
          cases hx : s.batchCall? x with
          | none => exact ((keeps_writing hs hx).step .refl hstep).2.1
          | some call => exact (step_writing hx hstep).2.keeps hs
        · refine .inr ⟨(hkeeps.step .refl hstep).2.1, ?_⟩
          rw [hcalls]
          cases hnew with
          | nothing => rw [List.append_nil]
          | call hk' hx =>
            rw [hq] at hk'
            cases hk'
            exact absurd hkeeps (not_keeps_writing c.state hx)
    · rw [Crew.Log.notesOf_append_ne ha]
      rcases hmove.client_cases hk with ⟨hlast, rfl⟩ | ⟨q, hq, ⟨rfl, -⟩ | ⟨rfl, -⟩⟩
      · exact .inl ⟨rfl, notesOf_eq_nil run (by simp [hlast])⟩
      · exact ih hq
      · exact absurd rfl ha

/-! ### Calls -/

/-- A call that was made in the course of a run, between two crews. -/
structure CallMade (ε : Type) where
  client : Nat
  ask : WriteAsk
  call : BatchCall
  earlier : Log (World ε) BatchCall
  here : WriteCrew ε
  next : WriteCrew ε
  later : Log (World ε) BatchCall

namespace CallMade

/-- It was made in this run. -/
structure In (m : CallMade ε) (s : Session ε) (start : WriteCrew ε)
    (log : Log (World ε) BatchCall) (c : WriteCrew ε) : Prop where
  cut : Cut s.writeRules s.Calls start m.earlier m.here (.client m.client) [m.call] m.next
    m.later log c
  begun : m.here.clients[m.client]? = some (m.ask, s.writing m.ask)
  batchCall : s.batchCall? m.ask = some m.call

/-- It changed its batch, and nothing else. -/
structure Touches (m : CallMade ε) : Prop where
  state : m.next.state = { m.here.state with batches := m.next.state.batches }
  services : m.next.services = m.here.services
  others : ∀ id, id ≠ m.call.id →
    m.next.state.batches.queued id = m.here.state.batches.queued id

/-- It put its write off, and was over. -/
structure Deferred (m : CallMade ε) : Prop where
  queue : Queue (since m.call.id m.earlier.notes ++ [m.call.entry])
    (m.next.state.batches.queued m.call.id)
  report : m.next.clients[m.client]? = some (m.ask, pure
    (.ok (.deferred m.call.id (m.next.state.batches.queued m.call.id).length)))

/-- It took these entries out of its batch, with its own, and their pipelines have been run up to
`c` by its client. -/
structure Flushed (m : CallMade ε) (s : Session ε) (c : WriteCrew ε)
    (entries : List WriteEntry) : Prop where
  queue : Queue (since m.call.id m.earlier.notes ++ [m.call.entry]) entries
  own : m.call.entry ∈ entries
  emptied : m.next.state.batches.queued m.call.id = []
  client : ∃ p, c.clients[m.client]? = some (m.ask, p) ∧
    s.Flushes m.later.Happened m.call.id entries m.ask.token m.next.state c.state p

variable {m : CallMade ε}

theorem In.first_step (h : m.In s start log c) : ∃ p,
    FirstStep s m.ask.token m.call m.here.state m.next.state p ∧
      m.next.clients[m.client]? = some (m.ask, p) ∧ m.next.services = m.here.services := by
  obtain ⟨p, w, started, hstep, heq⟩ := h.cut.move.client_step h.begun
  obtain ⟨rfl, hfirst⟩ := step_writing h.batchCall hstep
  have hlt := (List.getElem?_eq_some_iff.1 h.begun).1
  refine ⟨p, ?_, ?_, ?_⟩
  · rwa [heq]
  · rw [heq, List.getElem?_set_self hlt]
  · simp [heq, Crew.fresh]

theorem In.touches (h : m.In s start log c) : m.Touches := by
  obtain ⟨p, hfirst, -, hservices⟩ := h.first_step
  exact ⟨hfirst.state, hservices, fun id hid => hfirst.others hid⟩

section Effects

variable (hs : s.LeavesBatches) (hempty : w₀.batches = []) (h : m.In s (ofState w₀) log c)

include hs hempty h

theorem In.deferred (hflush : m.call.flush = false) : m.Deferred := by
  obtain ⟨p, hfirst, hp, -⟩ := h.first_step
  rcases hfirst.cases (holds_of_batching hs hempty h.cut.before) with ⟨-, hqueue, rfl⟩ | ⟨hnot, -⟩
  · exact ⟨hqueue, hp⟩
  · rw [hflush] at hnot
    cases hnot

theorem In.flushed (hflush : m.call.flush = true) : ∃ entries, m.Flushed s c entries := by
  obtain ⟨p, hfirst, hp, -⟩ := h.first_step
  rcases hfirst.cases (holds_of_batching hs hempty h.cut.before) with
    ⟨hnot, -⟩ | ⟨-, hemptied, entries, hqueue, rfl⟩
  · rw [hflush] at hnot
    cases hnot
  · obtain ⟨q, hq⟩ := h.cut.after.client_there hp
    refine ⟨entries, hqueue, hqueue.mem_of_latest Batches.latest_append_self, hemptied, q, hq, ?_⟩
    refine h.cut.after.client_has (I := fun log c p => s.Flushes log.Happened m.call.id entries
      m.ask.token m.next.state c.state p) hp flushes_flushing ?_ ?_ hq
    · intro log c a c' new q _ run hq hmove hnew
      have hlonger := hq.mono fun _ _ hw => hw.append [(⟨a, c.state, c'.state⟩, new)]
      exact hlonger.others (Crew.Log.happened_last _ new log)
    · intro log c c' new q q' started run hk hq hstep hmove hnew
      have hlonger := hq.mono fun _ _ hw =>
        hw.append [(⟨.client m.client, c.state, c'.state⟩, new)]
      exact hlonger.step hstep (Crew.Log.happened_last _ new log)

end Effects

/-- Where a call was written down, it was made. -/
theorem exists_in (h : s.Batching start log c) (hnotes : log.notes = before ++ call :: after) :
    ∃ m : CallMade ε, m.In s start log c ∧ m.call = call ∧ m.earlier.notes = before ∧
      m.later.notes = after := by
  obtain ⟨earlier, c₁, a, c₂, later, hcut, hbefore, hafter⟩ :=
    h.cut (fun _ _ _ hnew => hnew.length_le) hnotes
  have hnew := hcut.notes
  cases hnew with
  | @call k x call hk hx =>
    exact ⟨⟨k, x, call, earlier, c₁, c₂, later⟩, ⟨hcut, hk, hx⟩, rfl, hbefore, hafter⟩

/-- A client that is past its beginning made its call. -/
theorem exists_in_of_client (h : s.Batching (ofState w₀) log c)
    (hk : c.clients[k]? = some (x, p)) (hx : s.batchCall? x = some call) :
    p = s.writing x ∨ ∃ m : CallMade ε, m.In s (ofState w₀) log c ∧ m.client = k ∧ m.ask = x ∧
      m.call = call := by
  refine (h.begun (Nat.zero_le k) hk).imp_right fun hbegun => ?_
  obtain ⟨earlier, c₁, new, c₂, later, hcut, hk'⟩ := hbegun.cut
  have hnew := hcut.notes.of_begin hk'
  rw [hx] at hnew
  subst hnew
  exact ⟨⟨k, x, call, earlier, c₁, c₂, later⟩, ⟨hcut, hk', hx⟩, rfl, rfl, rfl⟩

theorem In.notes_eq (h : m.In s start log c) :
    log.notes = m.earlier.notes ++ m.call :: m.later.notes := by
  rw [h.cut.log_eq, Crew.Log.notes_append, Crew.Log.notes_cons, List.singleton_append]

/-- What became of a write that was put off. -/
theorem In.fate (hs : s.LeavesBatches) (hempty : w₀.batches = [])
    (h : m.In s (ofState w₀) log c) (hflush : m.call.flush = false) :
    (∃ n, SupersededAt m.call.id m.call.entry m.later.notes n) ∨
      (∃! n, FlushedAt m.call.id m.call.entry m.later.notes n) ∨
      StillQueued m.call.id m.call.entry m.later.notes ∧
        m.call.entry ∈ c.state.batches.queued m.call.id := by
  have hfate := Batches.fate m.call.id m.call.entry m.later.notes
  refine hfate.imp_right (Or.imp_right fun hstill => ?_)
  have hcall : m.call = ⟨m.call.id, m.call.entry, false⟩ := by rw [← hflush]
  have hlatest := hstill.latest m.earlier.notes
  rw [← hcall, ← h.notes_eq] at hlatest
  have hqueue := holds_of_batching hs hempty h.cut.logged m.call.id
  exact ⟨hstill, hqueue.mem_of_latest hlatest⟩

/-- The call that flushes a write takes it out of its batch. -/
theorem In.taken (hs : s.LeavesBatches) (hempty : w₀.batches = [])
    (h : m.In s (ofState w₀) log c) (hflush : m.call.flush = false) {n : Nat}
    (hn : FlushedAt m.call.id m.call.entry m.later.notes n) : ∃ (m' : CallMade ε) (entries : _),
      m'.In s (ofState w₀) log c ∧ m'.call.id = m.call.id ∧
        m'.earlier.notes = m.earlier.notes ++ m.call :: m.later.notes.take n ∧
        m'.Flushed s c entries ∧ m.call.entry ∈ entries := by
  have hcall : m.call = ⟨m.call.id, m.call.entry, false⟩ := by rw [← hflush]
  obtain ⟨call, hcall', hid, hcallFlush, hlatest⟩ := hn.latest m.earlier.notes
  obtain ⟨hlt, hget⟩ := List.getElem?_eq_some_iff.1 hcall'
  have hnotes : log.notes =
      (m.earlier.notes ++ m.call :: m.later.notes.take n) ++
        call :: m.later.notes.drop (n + 1) := by
    rw [h.notes_eq, List.append_assoc, List.cons_append, ← hget, ← List.drop_eq_getElem_cons hlt,
      List.take_append_drop]
  obtain ⟨m', hin, rfl, hearlier, -⟩ := exists_in h.cut.logged hnotes
  obtain ⟨entries, hflushed⟩ := hin.flushed hs hempty hcallFlush
  refine ⟨m', entries, hin, hid, hearlier, hflushed, hflushed.queue.mem_of_latest ?_⟩
  rw [hearlier, hid, hcall]
  exact hlatest

end CallMade

/-- What is said of a run of writes. -/
structure Account (s : Session ε) (start : WriteCrew ε) (log : Log (World ε) BatchCall)
    (c : WriteCrew ε) : Prop where
  queues : ∀ id, Queue (since id log.notes) (c.state.batches.queued id)
  /-- Only calls change the batches. -/
  quiet : ∀ e ∈ log, e.2 = [] → SameBatches e.1.before e.1.after
  /-- Every call in the log was made. -/
  calls : ∀ before call after, log.notes = before ++ call :: after → ∃ m : CallMade ε,
    m.In s start log c ∧ m.call = call ∧ m.earlier.notes = before ∧ m.later.notes = after
  /-- Every client that has begun has made its call, once. -/
  clients : ∀ k x p call, c.clients[k]? = some (x, p) → s.batchCall? x = some call →
    (p = s.writing x ∧ log.notesOf (.client k) = []) ∨
    (log.notesOf (.client k) = [call] ∧ ∃ m : CallMade ε, m.In s start log c ∧ m.client = k ∧
      m.ask = x ∧ m.call = call)
  touches : ∀ m : CallMade ε, m.In s start log c → m.Touches
  deferred : ∀ m : CallMade ε, m.In s start log c → m.call.flush = false → m.Deferred
  flushed : ∀ m : CallMade ε, m.In s start log c → m.call.flush = true →
    ∃ entries, m.Flushed s c entries
  /-- A flush that is over reports on one pipeline for each entry. -/
  reports : ∀ (m : CallMade ε) entries o, m.Flushed s c entries →
    c.clients[m.client]? = some (m.ask, pure o) → ∃ results,
      o = .ok (.flushed (BatchReport.ofResults m.call.id results)) ∧
      List.Forall₂ (fun entry result => result.1 = entry.path ∧
        Reaches m.later.Happened (s.writeEntry entry (s.batchTimeout entries) m.ask.token)
          m.next.state (pure result.2) c.state) entries results
  fate : ∀ m : CallMade ε, m.In s start log c → m.call.flush = false →
    (∃ n, SupersededAt m.call.id m.call.entry m.later.notes n) ∨
    (∃! n, FlushedAt m.call.id m.call.entry m.later.notes n) ∨
    StillQueued m.call.id m.call.entry m.later.notes ∧
      m.call.entry ∈ c.state.batches.queued m.call.id
  /-- The flush of a write takes it out of its batch. -/
  taken : ∀ (m : CallMade ε) n, m.In s start log c → m.call.flush = false →
    FlushedAt m.call.id m.call.entry m.later.notes n → ∃ (m' : CallMade ε) (entries : _),
      m'.In s start log c ∧ m'.call.id = m.call.id ∧
        m'.earlier.notes = m.earlier.notes ++ m.call :: m.later.notes.take n ∧
        m'.Flushed s c entries ∧ m.call.entry ∈ entries

/-- In every run of writes that began with no batches. -/
theorem batches_keep_writes (hs : s.LeavesBatches) (hempty : w₀.batches = [])
    (run : Run s.writeRules (ofState w₀) moments c) : ∃ log, log.moments = moments ∧
      s.Batching (ofState w₀) log c ∧ s.Account (ofState w₀) log c := by
  obtain ⟨log, hmoments, h⟩ := run.exists_logged s.exists_calls
  refine ⟨log, hmoments, h, {
    queues := holds_of_batching hs hempty h
    quiet := quiet_of_batching hs h
    calls := fun _ _ _ hnotes => CallMade.exists_in h hnotes
    clients := fun k x p call hk hx => ?_
    touches := fun _ hm => hm.touches
    deferred := fun _ hm hflush => hm.deferred hs hempty hflush
    flushed := fun _ hm hflush => hm.flushed hs hempty hflush
    reports := fun m entries o hm hdone => ?_
    fate := fun _ hm hflush => hm.fate hs hempty hflush
    taken := fun _ _ hm hflush hn => hm.taken hs hempty hflush hn }⟩
  · rcases notesOf_of_batching hs h hk with hbegin | ⟨hkeeps, hnotes⟩
    · exact .inl hbegin
    · rw [hx, Option.toList_some] at hnotes
      -- a call is made with the first step of its client
      rcases CallMade.exists_in_of_client h hk hx with rfl | hmade
      · exact absurd hkeeps (not_keeps_writing c.state hx)
      · exact .inr ⟨hnotes, hmade⟩
  · obtain ⟨p, hp, hflushes⟩ := hm.client
    rw [hdone] at hp
    cases hp
    exact hflushes.reported

/-! ### A file that is written twice -/

def serverless : Session Unit :=
  .ofProcesses (fun _ _ => Program.wait fun _ => none) ⟨"/"⟩ Settings.default

theorem leavesBatches_serverless : serverless.LeavesBatches :=
  leavesBatches_ofProcesses fun _ _ _ _ _ h => by cases h

def put (id path content : String) (flush : Bool) : Choice serverless.writeRules :=
  .enter ⟨⟨path⟩, content, ⟨false, false⟩, some ⟨id, flush⟩, Token.never⟩

def jobsEnd : Choice serverless.writeRules :=
  .outside (fun w => { w with jobs := [], finished := w.jobs ++ w.finished }) fun _ => rfl

/-- The third write supersedes the first, under another text for its path. The batch is flushed by
the last one. -/
def fiveWrites : List (Choice serverless.writeRules) :=
  [put "b" "/a.c" "one" false, .client 0, put "b" "b.c" "two" false, .client 1,
    put "b" "./a.c" "three" false, .client 2, put "other" "a.c" "four" false, .client 3,
    put "b" "/c.c" "five" true] ++
  (List.replicate 40 [.client 4, jobsEnd]).flatten

def fiveWritten : List (Moment (World Unit)) × WriteCrew Unit :=
  Crew.play fiveWrites ([], ofState (World.ofFiles FileTree.empty ()))

/-- Batches with their lengths, or files with theirs. -/
def lengths : Except Failure WriteOutcome → List (String × Nat)
  | .ok (.deferred id queued) => [(id, queued)]
  | .ok (.flushed report) => report.files.map fun f => (f.path.text, f.bytes)
  | _ => []

theorem batches_keep_writes_fiveWrites :
    fiveWritten.2.clients.map (fun e => e.2.result?.map lengths) =
      [some [("b", 1)], some [("b", 2)], some [("b", 2)], some [("other", 1)],
        some [("/./a.c", 5), ("/b.c", 3), ("/c.c", 4)]] ∧
    ∃ log, log.moments = fiveWritten.1 ∧
      serverless.Batching (ofState (World.ofFiles FileTree.empty ())) log fiveWritten.2 ∧
      serverless.Account (ofState (World.ofFiles FileTree.empty ())) log fiveWritten.2 :=
  ⟨by decide +kernel, batches_keep_writes leavesBatches_serverless rfl (Crew.run_play _ .nil)⟩

end LspClient.Session
