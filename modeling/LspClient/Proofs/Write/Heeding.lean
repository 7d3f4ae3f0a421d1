import LspClient.Proofs.Workspace.Handling
import LspClient.Proofs.Write.Lands
import LspClient.Proofs.Write.Parts

/-!
# What heeds the token of a write

The operations that a write is made of give up when its token is cancelled, wherever they wait: in a
line for the outbox, for a report or a response, for a lock, for a connection to be created, or for
diagnostics. Work in the background ends by itself. What does not give up is a notification: one
waits for the writer of its connection without a limit (`Connection.AwaitsWriter`).
-/

namespace LspClient

open Program

variable {ε α : Type} {w w' w'' : World ε} {token : Token} {i : Nat}

namespace World

/-- What may happen: no cancellation is taken back, and no work in the background is lost. -/
structure Goes (w w' : World ε) : Prop where
  cancelled : w.StaysCancelled w'
  finished : ∀ job ∈ w.finished, job ∈ w'.finished
  jobs : ∀ job ∈ w.jobs, job ∈ w'.jobs ∨ job ∈ w'.finished

theorem Goes.trans (h : w.Goes w') (h' : w'.Goes w'') : w.Goes w'' where
  cancelled n hn := h'.cancelled n (h.cancelled n hn)
  finished job hjob := h'.finished job (h.finished job hjob)
  jobs job hjob := (h.jobs job hjob).elim (h'.jobs job) fun hf => .inr (h'.finished job hf)

theorem goes_of_eq (hc : w'.cancelled = w.cancelled) (hj : w'.jobs = w.jobs)
    (hf : w'.finished = w.finished) : w.Goes w' where
  cancelled _ hn := hc ▸ hn
  finished _ hjob := hf ▸ hjob
  jobs _ hjob := .inl (hj ▸ hjob)

theorem Goes.refl (w : World ε) : w.Goes w := goes_of_eq rfl rfl rfl

theorem goes_writeText (path : Path) (content : String) (w : World ε) :
    w.Goes (Workspace.writeText path content w).2 := by
  unfold Workspace.writeText
  exact goes_of_eq rfl rfl rfl

theorem goes_setConnection (w : World ε) (i : Nat) (c : Connection) :
    w.Goes (w.setConnection i c) := goes_of_eq rfl rfl rfl

theorem goes_onPipe (w : World ε) (i : Nat) (f : Pipe → Pipe) : w.Goes (w.onPipe i f) :=
  goes_of_eq rfl rfl rfl

theorem goes_cancel (n : Nat) (w : World ε) : w.Goes (w.cancel n) where
  cancelled _ hm := List.mem_cons_of_mem n hm
  finished _ hjob := hjob
  jobs _ hjob := .inl hjob

theorem goes_beginJob (w : World ε) : w.Goes w.beginJob.2 where
  cancelled _ hn := hn
  finished _ hjob := hjob
  jobs _ hjob := .inl (List.mem_append_left _ hjob)

def endJob (job : Nat) (w : World ε) : World ε := { w.finish job with jobs := w.jobs.erase job }

/-- What comes about by itself: nothing, or the end of work in the background. -/
inductive Lets (w : World ε) : World ε → Prop
  | nothing : Lets w w
  | ends {job : Nat} (h : job ∈ w.jobs) : Lets w (w.endJob job)

end World

open World (Goes Lets)

namespace Connection

/-- A notification stands in line for the outbox of a connection, or waits for the report that it
was written. Both is up to the writer. -/
inductive AwaitsWriter (i : Nat) : {β : Type} → Work ε β → Prop
  | room (ticket : Nat) (frame : Json) : AwaitsWriter i
      (Work.within Limit.never (stepOn i fun c => c.takeIn ticket (.send frame (some ticket))))
  | report (ticket : Nat) :
      AwaitsWriter i (Work.within Limit.never (stepOn i fun c => c.delivered ticket))

/-- A program is held up by the writer of a connection: the queue that the writer takes from is
full, or the writer has not reported. -/
inductive HeldUp (i : Nat) (w : World ε) (p : Work ε α) : Prop
  | room {ticket : Nat} {frame : Json} (hstands : StandsAt (Work.within Limit.never
        (stepOn i fun c => c.takeIn ticket (.send frame (some ticket)))) p)
      (hopen : (w.connection i).outbox.closed = false)
      (hfull : (w.connection i).outbox.hasRoom
        ((w.connection i).outbox.line.idxOf ticket) = false) : HeldUp i w p
  | report {ticket : Nat}
      (hstands : StandsAt (Work.within Limit.never (stepOn i fun c => c.delivered ticket)) p)
      (hnone : (w.connection i).outbox.deliveries.get? ticket = none) : HeldUp i w p

/-- What waits without a limit waits for its step alone. -/
theorem eq_none_of_canMove {step : Connection → Option (α × Connection)}
    (h : (Work.within Limit.never (stepOn i step)).canMove w = false) :
    step (w.connection i) = none := by
  cases hstep : step (w.connection i) with
  | none => rfl
  | some r =>
    simp [Work.within, canMove, stepOn, hstep, World.isCancelled, Limit.never, Token.never] at h

theorem AwaitsWriter.heldUp {β : Type} {q : Work ε β} {p : Work ε α} (h : AwaitsWriter i q)
    (hlasts : q.canMove w = false) (hstands : q.StandsAt p) : HeldUp i w p := by
  cases h with
  | room ticket frame =>
    have hnone := eq_none_of_canMove hlasts
    unfold takeIn Outbox.takeIn at hnone
    split at hnone
    · cases hnone
    · next hopen =>
      have hopen : (w.connection i).outbox.closed = false := by simpa using hopen
      exact .room hstands hopen (by simpa [hopen] using hnone)
  | report ticket =>
    exact .report hstands (by simpa [delivered, Outbox.collect] using eq_none_of_canMove hlasts)

end Connection

/-- To heed a token: all waits but those for a writer are over once it is cancelled, or once work
in the background has ended. -/
def heeding (token : Token) : Terms (World ε) where
  Goes := Goes
  Stopped w := w.isCancelled token = true
  Lets := Lets
  Excuses q := ∃ i, Connection.AwaitsWriter i q
  goes_refl := .refl
  goes_trans := .trans
  lets_refl _ := .nothing

/-! ### Waits -/

namespace Work

theorem goes_of_within {limit : Limit} {step : World ε → Option (α × World ε)}
    (hstep : ∀ w a w', step w = some (a, w') → w.Goes w') (w : World ε) (r : Except Failure α)
    (w' : World ε) (h : (if w.isCancelled limit.token then some (.error .cancelled, w)
      else match step w with
        | some (a, w) => some (.ok a, w)
        | none => (limit.expired? w.clock).map fun e => (.error e, w)) = some (r, w')) :
    w.Goes w' := by
  split at h
  · cases h
    exact .refl w
  · split at h
    · next a w'' ha =>
      cases h
      exact hstep w a _ ha
    · obtain ⟨e, -, heq⟩ := Option.map_eq_some_iff.1 h
      cases heq
      exact .refl w

theorem goes_of_stepOn {step : Connection → Option (α × Connection)} (w : World ε) (a : α)
    (w' : World ε) (h : Connection.stepOn i step w = some (a, w')) : w.Goes w' := by
  obtain ⟨⟨a', c⟩, -, heq⟩ := Option.map_eq_some_iff.1 h
  cases heq
  exact World.goes_setConnection w i c

theorem heedful_within {expiry : Option (Nat × Failure)} {step : World ε → Option (α × World ε)}
    (hstep : ∀ w a w', step w = some (a, w') → w.Goes w') :
    (within ⟨token, expiry⟩ step).Heedful (heeding token) := by
  refine .await (goes_of_within hstep) fun w hstopped => ?_
  change w.isCancelled token = true at hstopped
  rw [if_pos hstopped]
  rfl

theorem heedful_sleepWithin {due : Nat} :
    (sleepWithin (Limit.ofToken token) due : Work ε _).Heedful (heeding token) := by
  refine .await (fun w r w' hs => ?_) fun w hstopped => ?_
  · split at hs
    · cases hs
      exact .refl w
    · split at hs
      · cases hs
        exact .refl w
      · cases hs
  · change w.isCancelled token = true at hstopped
    rw [Limit.ofToken, if_pos hstopped]
    rfl

/-- The job that was begun is under way or has ended, whatever happens in the meantime. -/
theorem heedful_job {T : Terms (World ε)} (hgoes : ∀ w w', T.Goes w w' ↔ w.Goes w')
    (hlets : ∀ w w', w.Lets w' → T.Lets w w') {step : World ε → α × World ε}
    (hstep : ∀ w : World ε, w.Goes (step w).2) : (inBackground step).Heedful T := by
  intro w w₁ _
  refine ⟨fun _ => .inr ⟨w₁, hlets _ _ .nothing, rfl⟩, fun job w₂ hbegin => ?_⟩
  obtain ⟨rfl, rfl⟩ : w₁.beginJob.1 = job ∧ w₁.beginJob.2 = w₂ :=
    Prod.mk.inj (Option.some.inj hbegin)
  refine ⟨(hgoes _ _).2 (World.goes_beginJob w₁), fun w₃ hw₃ => ?_⟩
  refine ⟨fun _ => .inr ?_, fun a w₄ hs => ?_⟩
  · have hbegun : w₁.beginJob.1 ∈ w₁.beginJob.2.jobs :=
      List.mem_append_right _ (List.mem_singleton_self _)
    rcases ((hgoes _ _).1 hw₃).jobs _ hbegun with hjob | hjob
    · refine ⟨_, hlets _ _ (.ends hjob), ?_⟩
      simp [World.endJob, World.finish, World.isFinished]
    · refine ⟨w₃, hlets _ _ .nothing, ?_⟩
      simpa [World.isFinished] using hjob
  · dsimp only at hs
    split at hs
    · have hstep := hstep w₃
      rw [Option.some.inj hs] at hstep
      exact ⟨(hgoes _ _).2 hstep, trivial⟩
    · cases hs

theorem heedful_inBackground {step : World ε → α × World ε}
    (hstep : ∀ w : World ε, w.Goes (step w).2) :
    (inBackground step).Heedful (heeding token) :=
  heedful_job (fun _ _ => .rfl) (fun _ _ h => h) hstep

/-- Editing files waits for nothing but work in the background. -/
theorem heedful_editParts {T : Terms (World ε)} (hgoes : ∀ w w', T.Goes w w' ↔ w.Goes w')
    (hlets : ∀ w w', w.Lets w' → T.Lets w w') :
    Workspace.EditParts fun p : Work ε _ => p.Heedful T where
  pure := .pure
  bind := .bind
  read _ := heedful_job hgoes hlets .refl
  write path content := heedful_job hgoes hlets (World.goes_writeText path content)

theorem heedful_isCancelled {t : Token} :
    (isCancelled t : Work ε Bool).Heedful (heeding token) := .look

theorem heedful_connection : (connection i : Work ε _).Heedful (heeding token) := .look

theorem heedful_now : (now : Work ε _).Heedful (heeding token) := .look

theorem heedful_onConnection {f : Connection → α × Connection} :
    (onConnection i f : Work ε α).Heedful (heeding token) :=
  .act fun w => World.goes_setConnection w i _

theorem heedful_updateConnection {f : Connection → Connection} :
    (update (World.onConnection i f) : Work ε Unit).Heedful (heeding token) :=
  .update fun w => World.goes_setConnection w i _

end Work

open Work

/-! ### Requests and notifications -/

namespace Connection

/-- A wait for the writer is left when it was cut short. -/
theorem heedful_leaving {ticket : Nat} {wait : Work ε (Except Failure (Except Failure Unit))}
    (hwait : wait.Heedful (heeding token)) : (do
      match ← wait with
      | .ok outcome => return outcome
      | .error e =>
        update (World.onConnection i (leave ticket))
        return .error e : Work ε (Except Failure Unit)).Heedful (heeding token) := by
  refine .bind hwait fun r => ?_
  match r with
  | .ok outcome => exact .pure _
  | .error e => exact .bind heedful_updateConnection fun _ => .pure _

theorem heedful_send {frame : Json} {limit : Limit}
    (hroom : ∀ ticket, (within limit (stepOn i fun c =>
      c.takeIn ticket (.send frame (some ticket))) : Work ε _).Heedful (heeding token))
    (hreport : ∀ ticket, (within limit (stepOn i fun c => c.delivered ticket) : Work ε _).Heedful
      (heeding token)) : (send i frame limit : Work ε _).Heedful (heeding token) := by
  refine .bind heedful_onConnection fun ticket => ?_
  refine .bind (heedful_leaving (hroom ticket)) fun r => ?_
  match r with
  | .error e => exact .pure _
  | .ok () => exact heedful_leaving (hreport ticket)

theorem heedful_exchange {id : Nat} {frame : Json} {expiry : Option (Nat × Failure)} :
    (exchange i id frame ⟨token, expiry⟩ : Work ε _).Heedful (heeding token) := by
  refine .bind (heedful_send (fun _ => heedful_within goes_of_stepOn)
    fun _ => heedful_within goes_of_stepOn) fun r => ?_
  match r with
  | .error e => exact .pure _
  | .ok () =>
    refine .bind (heedful_within goes_of_stepOn) fun r => ?_
    match r with
    | .ok outcome => exact .pure _
    | .error e => exact .pure _

theorem heedful_giveUp {id : Nat} {e : Failure} :
    (giveUp i id e : Work ε _).Heedful (heeding token) := by
  refine .bind heedful_onConnection fun wasPending => ?_
  split
  · exact heedful_updateConnection
  · exact .pure _

theorem heedful_call {method : String} {params : Option Json} {timeout : Option Nat} :
    (call i method params token timeout : Work ε _).Heedful (heeding token) := by
  refine .bind heedful_isCancelled fun cancelled => ?_
  split
  · exact .pure _
  refine .bind .look fun uptime => .bind heedful_onConnection fun id => ?_
  refine .bind heedful_onConnection fun r => ?_
  match r with
  | .error e => exact .pure _
  | .ok () =>
    refine .bind heedful_now fun started => .bind heedful_connection fun c => ?_
    refine .bind heedful_exchange fun r => ?_
    match r with
    | .ok result => exact .pure _
    | .error e => exact .bind heedful_giveUp fun _ => .pure _

theorem heedful_request {method : String} {params : Option Json} {timeout : Option Nat} :
    (request i method params token timeout : Work ε _).Heedful (heeding token) := by
  refine .bind heedful_connection fun c => ?_
  split
  · exact .pure _
  · exact heedful_call

/-- A notification heeds no token, and is excused. -/
theorem heedful_notify {method : String} {params : Option Json} :
    (notify i method params : Work ε _).Heedful (heeding token) := by
  refine .bind heedful_connection fun c => ?_
  split
  · exact .pure _
  · refine .bind (.update fun w => World.goes_setConnection w i _) fun _ => ?_
    exact heedful_send
      (fun ticket => .excused (goes_of_within goes_of_stepOn) ⟨i, .room ticket _⟩)
      fun ticket => .excused (goes_of_within goes_of_stepOn) ⟨i, .report ticket⟩

end Connection

/-! ### Documents -/

theorem Document.heedful_parts :
    Document.Parts i token fun p : Work ε _ => p.Heedful (heeding token) where
  pure := .pure
  bind := .bind
  look := .look
  update _ := heedful_updateConnection
  join _ := heedful_onConnection
  lock _ := heedful_within goes_of_stepOn
  read _ := heedful_inBackground .refl
  notify _ _ := Connection.heedful_notify

/-! ### Connecting -/

namespace Registry

theorem heedful_outcomeOf {generation : Nat} {expiry : Option (Nat × Failure)} :
    (outcomeOf generation ⟨token, expiry⟩ : Work ε _).Heedful (heeding token) := by
  refine .bind (heedful_within fun w a w' hs => ?_) fun r => ?_
  · obtain ⟨outcome, -, heq⟩ := Option.map_eq_some_iff.1 hs
    cases heq
    exact .refl w
  · match r with
    | .ok outcome => exact .pure _
    | .error e => exact .pure _

theorem goes_claimNow (key : ConnectionKey) (name : String) (config : ServerConfig) (w : World ε) :
    w.Goes (claimNow key name config w).2 := by
  unfold claimNow
  split
  dsimp only
  split <;> exact World.goes_of_eq rfl rfl rfl

theorem heedful_getOrCreate {connect : Connector ε} {name : String} {config : ServerConfig}
    {cwd : Path} {warmup : Option Nat} :
    (getOrCreate connect name config cwd warmup token).Heedful (heeding token) := by
  refine .bind .look fun isShutDown => ?_
  split
  · exact .pure _
  refine .bind heedful_now fun started => ?_
  refine .bind (.locked (goes_claimNow _ name config)) fun found => ?_
  match found with
  | .alive i => exact .pure _
  | .starting generation => exact heedful_outcomeOf
  | .vacant generation => exact .bind .fork fun _ => heedful_outcomeOf

end Registry

/-! ### Linters -/

/-- A linter that gives up when its token is cancelled. -/
structure Linter.Heeds (linter : Linter ε) : Prop where
  lint : ∀ path token expiry, (linter.lint path ⟨token, expiry⟩).Heedful (heeding token)
  format : ∀ path content token, (linter.format path content token).Heedful (heeding token)

end LspClient
