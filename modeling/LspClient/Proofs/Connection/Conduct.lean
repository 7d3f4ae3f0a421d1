import LspClient.Proofs.Connection.Standings

/-!
# The conduct of the programs of a connection

Who stands where: the services of a connection stay idle, a request goes from its check to `ahead`
and from there to `past`, and a shutdown becomes the `closer` when it sets the flag.
-/

namespace LspClient.Connection

open Program Calls Crew

variable {ε α β : Type} {i : Nat} {A : String → Prop}

/-! ### Services -/

theorem asksNothing_receive (frame : Json) (c : Connection) :
    AsksNothing c (receive frame c).2 := by
  unfold receive
  split
  · exact .refl c
  · next id outcome _ =>
    unfold takeResponse
    split
    · next method calls htake =>
      obtain ⟨-, rfl⟩ := Prod.mk.inj htake
      exact .of_calls rfl fun _ _ h => get?_of_get?_erase h
    · exact .refl c
  · exact .refl c
  · split
    · split
      · unfold takePublish
        split
        · exact .of_eq rfl rfl
        · exact .refl c
      · exact .refl c
    · exact .refl c

theorem stays_stopReading : Stays i .idle (stopReading i : Work ε Unit) :=
  (stays_sweep allows_idle).bind fun _ => stays_act fun _ => rfl

theorem stays_reader : Stays i .idle (reader i : Work ε Bool) := by
  have hevent : Stays i .idle (wait (nextEvent i) : Work ε Frame.Event) :=
    stays_await fun w event w' hs => connections_nextEvent hs
  refine hevent.bind fun event => ?_
  match event with
  | .frame v =>
    refine (stays_onConnection allows_idle fun c => asksNothing_receive v c).bind fun received => ?_
    match received with
    | .nothing => exact .pure _
    | .request r =>
      have hanswer : Follows (standing ε i) (answer i r) .idle fun _ _ => True :=
        Follows.mono (fun _ _ _ => trivial) (stays_answer allows_idle)
      exact Stays.bind hanswer.fork fun _ => .pure _
    | .response id outcome => exact (stays_complete allows_idle).bind fun _ => .pure _
  | .failed e =>
    change Stays i .idle (if e.isRecoverable = true then _ else _)
    split
    · exact .pure _
    · exact stays_stopReading.bind fun _ => .pure _
  | .ended => exact stays_stopReading.bind fun _ => .pure _

theorem queue_report (o : Outbox) (ticket : Option Nat) (d : Delivery) :
    (o.report ticket d).queue = o.queue := by
  cases ticket <;> rfl

/-- The writer takes commands out of the outbox. -/
theorem asksNothing_writerStep {w w' : World ε} {r : WriterStep}
    (h : writerStep i w = some (r, w')) : ∃ (v : World ε) (c : Connection),
      v.connections = w.connections ∧ w' = v.setConnection i c ∧
      AsksNothing (w.connection i) c := by
  simp only [writerStep] at h
  -- the writer is in the middle of a frame, or takes the next command from the queue
  split at h
  · simp only [writeSome] at h
    split at h
    · cases h
      exact ⟨w, _, rfl, rfl, rfl, fun _ _ h => .inl h, fun _ h => .inl (queue_report _ _ _ ▸ h)⟩
    · split at h
      · cases h
      · cases h
        refine ⟨w.onPipe _ _, _, rfl, rfl, ?_⟩
        split
        · exact ⟨rfl, fun _ _ h => .inl h, fun _ h => .inl (queue_report _ _ _ ▸ h)⟩
        · exact ⟨rfl, fun _ _ h => .inl h, fun _ h => .inl h⟩
  · have hqueue {cmd : Command} {o : Outbox}
        (hnext : (w.connection i).outbox.next? = some (cmd, o)) :
        ∀ x ∈ o.queue, x ∈ (w.connection i).outbox.queue := by
      intro x hx
      unfold Outbox.next? at hnext
      split at hnext
      · cases hnext
      · next heq =>
        cases hnext
        rw [heq]
        exact List.mem_cons_of_mem _ hx
    split at h
    · cases h
    · next hnext =>
      cases h
      exact ⟨w, _, rfl, rfl, rfl, fun _ _ h => .inl h, fun x hx => .inl (hqueue hnext x hx)⟩
    · cases h
      exact ⟨w.onPipe _ _, _, rfl, rfl, rfl, fun _ _ h => .inl h,
        fun _ hx => absurd hx List.not_mem_nil⟩

theorem stays_writer : Stays i .idle (writer i : Work ε Bool) := by
  refine Stays.bind (stays_besidePipes allows_idle fun w r w' => asksNothing_writerStep)
    fun r => ?_
  match r with
  | .goOn => exact .pure _
  | .finished => exact .pure _
  | .broken =>
    have hstop : Stays i .idle (stopWriting i : Work ε Unit) := by
      refine stays_besidePipes allows_idle fun w _ w' hs => ?_
      cases hs
      exact ⟨w.onPipe _ _, _, rfl, rfl, .of_outbox nofun⟩
    exact (stays_sweep allows_idle).bind fun _ => hstop.bind fun _ => .pure _

theorem stays_read {g : Standing} {channel : Channel} {limit : Nat} :
    Stays i g (channel.read limit : Work ε (List UInt8)) := by
  cases channel with
  | pipe j =>
    refine stays_await fun w a w' h => ?_
    simp only [Channel.takeFrom] at h
    split at h
    · obtain ⟨-, heq⟩ := Option.ite_none_right_eq_some.1 h
      cases heq
      rfl
    · cases h
      rfl
  | file at_ => exact .pure _
  | null => exact .pure _

theorem stays_errorReader {errors : Channel} :
    Stays i .idle (errorReader i errors : Work ε Bool) := by
  refine stays_read.bind fun part => ?_
  match part with
  | [] =>
    have hend (c : Connection) : AsksNothing c (endErrors c) := .of_eq rfl rfl
    exact (stays_update allows_idle hend).bind fun _ => .pure _
  | b :: part =>
    have htake (c : Connection) : AsksNothing c { c with
        stderrTail := (c.stderrTail ++ b :: part).drop
          ((c.stderrTail ++ b :: part).length - stderrTailSize) } := .of_eq rfl rfl
    exact (stays_update allows_idle htake).bind fun _ => .pure _

/-! ### Requests -/

theorem stays_call {g : Standing} (hg : Allows A g) {method : String} {params : Option Json}
    {token : Token} {timeout : Option Nat} (hmethod : A method) :
    Stays i g (call i method params token timeout : Work ε _) := by
  refine stays_look.bind fun cancelled => ?_
  split
  · exact .pure _
  refine stays_look.bind fun uptime => ?_
  have hnumber (c : Connection) : AsksOnly A c (numberCall uptime c).2 :=
    ⟨rfl, fun _ _ h => .inl h, fun _ h => .inl h⟩
  refine (stays_onConnection hg hnumber).bind fun id => ?_
  refine (stays_onConnection hg fun c => asksOnly_register hmethod).bind fun r => ?_
  match r with
  | .error e => exact .pure _
  | .ok () =>
    refine stays_look.bind fun started => stays_look.bind fun c => ?_
    have hexchange : Stays i g (exchange i id (Message.ofRequest id method params)
        ⟨token, some (started + timeout.getD c.requestTimeout,
          .timeout method (timeout.getD c.requestTimeout * 1000))⟩ : Work ε _) := by
      refine (stays_send hg fun _ m hm => asks_ofRequest hm ▸ hmethod).bind fun r => ?_
      match r with
      | .error e => exact .pure _
      | .ok () => exact stays_awaitOutcome hg
    refine hexchange.bind fun r => ?_
    match r with
    | .ok result => exact .pure _
    | .error e => exact (stays_giveUp hg).bind fun _ => .pure _

/-- Where a request is after it has stood in line. -/
theorem does_enqueue {ticket : Nat} {command : Command} {limit : Limit} :
    Follows (standing ε i) (enqueue i ticket command limit) .ahead fun g' _ => g' = .past := by
  have hwait : Follows (standing ε i)
      (Work.within limit (stepOn i fun c => c.takeIn ticket command)) .ahead
      fun g' _ => g' = .past :=
    does_within
      (fun _ _ _ hs => ⟨.past, .leave (asksOnly_takeIn (fun _ _ => trivial) hs), rfl⟩)
      ⟨.past, fun c => .leave (.refl c), fun _ => rfl⟩
  refine hwait.bind fun g' r hg' => ?_
  subst hg'
  match r with
  | .ok outcome => rfl
  | .error e =>
    have hleave (c : Connection) : AsksNothing c (leave ticket c) :=
      .of_outbox fun _ hcmd => .inl hcmd
    exact (stays_update allows_past hleave).bind fun _ => .pure _

theorem does_exchange {id : Nat} {frame : Json} {limit : Limit} :
    Follows (standing ε i) (exchange i id frame limit) .ahead fun g' _ => g' = .past := by
  have hjoin : Stays i .ahead (Work.onConnection i join : Work ε Nat) :=
    does_onConnection fun c => ⟨.ahead, .ask (.of_outbox fun _ h => .inl h)
      (by simp [join, Outbox.join]), rfl⟩
  have hsend : Follows (standing ε i) (send i frame limit) .ahead fun g' _ => g' = .past := by
    refine hjoin.then fun ticket => does_enqueue.bind fun g' r hg' => ?_
    subst hg'
    match r with
    | .error e => rfl
    | .ok () => exact stays_report allows_past fun _ _ _ => asksOnly_delivered
  refine hsend.bind fun g' r hg' => ?_
  subst hg'
  match r with
  | .error e => rfl
  | .ok () => exact stays_awaitOutcome allows_past

/-- A request that has looked goes on to leave the line, or ends before it has joined. -/
theorem does_call {method : String} {params : Option Json} {token : Token}
    {timeout : Option Nat} :
    Follows (standing ε i) (call i method params token timeout) .ahead fun _ _ => True := by
  refine stays_look.then fun cancelled => ?_
  split
  · trivial
  refine stays_look.then fun uptime => ?_
  have hnumber : Stays i .ahead (Work.onConnection i (numberCall uptime) : Work ε Nat) :=
    does_onConnection fun c =>
      ⟨.ahead, .ask ⟨rfl, fun _ _ h => .inl h, fun _ h => .inl h⟩ (Nat.le_refl _), rfl⟩
  refine hnumber.then fun id => ?_
  have hregister : Stays i .ahead
      (Work.onConnection i (register id method) : Work ε (Except Failure Unit)) :=
    does_onConnection fun c => by
      refine ⟨.ahead, .ask (asksOnly_register trivial) ?_, rfl⟩
      unfold register
      split <;> exact Nat.le_refl _
  refine hregister.then fun r => ?_
  match r with
  | .error e => trivial
  | .ok () =>
    refine stays_look.then fun started => stays_look.then fun c => ?_
    refine does_exchange.bind fun g' r hg' => ?_
    subst hg'
    match r with
    | .ok result => trivial
    | .error e => exact (stays_giveUp allows_past).then fun _ => trivial

theorem does_request {method : String} {params : Option Json} {token : Token}
    {timeout : Option Nat} :
    Follows (standing ε i) (request i method params token timeout) .asking fun _ _ => True := by
  have hlook : Follows (standing ε i) (Work.connection i) .asking fun g' c =>
      (g' = .ahead ∧ c.usable = .ok ()) ∨ (g' = .asking ∧ c.usable ≠ .ok ()) := by
    refine Follows.act fun w hinv => ?_
    by_cases hclosing : (w.connection i).calls.closing = false
    · by_cases hok : (w.connection i).usable = .ok ()
      · exact ⟨.ahead, ⟨hinv, .check hclosing⟩, .inl ⟨rfl, hok⟩⟩
      · exact ⟨.asking, ⟨hinv, .rest⟩, .inr ⟨rfl, hok⟩⟩
    · refine ⟨.asking, ⟨hinv, .rest⟩, .inr ⟨rfl, ?_⟩⟩
      simp [usable, isAlive, Calls.isAlive, hclosing]
  refine hlook.bind fun g' c hc => ?_
  rcases hc with ⟨rfl, hok⟩ | ⟨rfl, hno⟩
  · rw [hok]
    exact does_call
  · match h : c.usable with
    | .ok () => exact absurd h hno
    | .error e => trivial

/-! ### Shutting down -/

/-- What is left of a shutdown when the calls are taken out that have been completed. -/
def windUp (i : Nat) : Work ε Unit := do
  unless (← Work.connection i).calls.closed do
    askToExit i
  closeStream i
  endProcess i
  sweep i

/-- What is left of a shutdown that has set the flag and knows the server by name. -/
def reject (i : Nat) (name : String) : Work ε Unit := do
  failAll i (.connectionClosed name none) (← Work.onConnection i drain)
  windUp i

theorem shutdown_eq (i : Nat) : (shutdown i : Work ε Unit) = (do
    if ← Work.onConnection i beginClosing then
      untilClosed i
    else
      reject i (← Work.connection i).calls.server) := rfl

theorem does_failAll (e : Failure) (t : Table Nat String) :
    Follows (standing ε i) (failAll i e t) (.closer (failing e t)) fun g _ => g = .closer [] := by
  induction t with
  | nil => exact .pure rfl
  | cons x t ih =>
    have hcomplete : Follows (standing ε i) (complete i x.1 (.error e))
        (.closer (failing e (x :: t))) fun g _ => g = .closer (failing e t) :=
      does_onConnection (f := fun c => ((), { c with calls := c.calls.complete x.1 (.error e) }))
        fun c => ⟨_, .complete, rfl⟩
    exact hcomplete.bind fun g _ hg => hg ▸ ih

theorem stays_endProcess : Stays i (.closer []) (endProcess i : Work ε Unit) := by
  have htake (c : Connection) : AsksOnly (· = Method.shutdown) c (takeProcess c).2 :=
    .of_eq rfl rfl
  refine (stays_onConnection allows_closer htake).bind fun process => ?_
  match process with
  | none => exact .pure _
  | some child =>
    have hjoin : Stays i (.closer [])
        (Process.joinWithin child shutdownTimeout : Work ε Bool) :=
      stays_look.bind fun now => stays_await fun w a w' hs => by
        split at hs
        · cases hs
          rfl
        · obtain ⟨-, heq⟩ := Option.ite_none_right_eq_some.1 hs
          cases heq
          rfl
    refine hjoin.bind fun ended => ?_
    split
    · exact .pure _
    · refine (stays_act fun _ => rfl).bind fun _ => Stays.bind ?_ fun _ => .pure _
      refine stays_await fun w a w' hs => ?_
      obtain ⟨_, -, heq⟩ := Option.map_eq_some_iff.1 hs
      cases heq
      rfl

theorem stays_windUp : Stays i (.closer []) (windUp i : Work ε Unit) := by
  have hask : Stays i (.closer []) (askToExit i : Work ε Unit) :=
    (stays_call allows_closer rfl).bind fun r => by
      match r with
      | .ok _ => exact (stays_tell allows_closer).bind fun _ => .pure _
      | .error _ => exact .pure _
  have hclose : Stays i (.closer []) (closeStream i : Work ε Unit) :=
    (stays_join allows_closer).bind fun ticket =>
      (stays_enqueue allows_closer fun m hm => absurd hm (not_asks_shutdown m)).bind fun _ =>
        .pure _
  refine stays_look.bind fun c => ?_
  split
  · exact (Stays.pure ()).bind fun _ => hclose.bind fun _ => stays_endProcess.bind fun _ =>
      stays_sweep allows_closer
  · exact hask.bind fun _ => hclose.bind fun _ => stays_endProcess.bind fun _ =>
      stays_sweep allows_closer

/-- The calls that are taken out are all completed before anything else is done. -/
theorem does_rejected (e : Failure) (t : Table Nat String) :
    Follows (standing ε i) (do failAll i e t; windUp i) (.closer (failing e t)) fun _ _ => True :=
  (does_failAll e t).bind fun _ _ hg => hg ▸ stays_windUp.mono fun _ _ _ => trivial

theorem does_reject (name : String) :
    Follows (standing ε i) (reject i name) (.closer []) fun _ _ => True := by
  have hdrain : Follows (standing ε i) (Work.onConnection i drain) (.closer [])
      fun g t => g = .closer (failing (.connectionClosed name none) t) :=
    does_onConnection fun c => ⟨_, .drain, rfl⟩
  exact hdrain.bind fun _ t hg => hg ▸ does_rejected _ t

theorem does_shutdown : Follows (standing ε i) (shutdown i) .idle fun _ _ => True := by
  rw [shutdown_eq]
  have hbegin : Follows (standing ε i) (Work.onConnection i beginClosing) .idle fun g already =>
      g = if already then .idle else .closer [] := by
    refine does_onConnection fun c => ?_
    cases hclosing : c.calls.closing with
    | true =>
      refine ⟨.idle, .serve ⟨?_, fun _ _ h => .inl h, fun _ h => .inl h⟩, ?_⟩
      · exact hclosing.symm
      · simp [beginClosing, Calls.beginClosing, hclosing]
    | false =>
      refine ⟨_, .begin hclosing, ?_⟩
      simp [beginClosing, Calls.beginClosing, hclosing]
  refine hbegin.bind fun g already hg => ?_
  cases already with
  | true =>
    subst hg
    refine Follows.mono (fun _ _ _ => trivial) (stays_await (g := .idle) fun w a w' hs => ?_)
    obtain ⟨-, heq⟩ := Option.ite_none_right_eq_some.1 hs
    cases heq
    rfl
  | false =>
    subst hg
    exact stays_look.then fun c => does_reject _

end LspClient.Connection
