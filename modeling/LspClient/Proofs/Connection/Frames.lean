import LspClient.Proofs.Connection.Answering
import LspClient.Proofs.Connection.Correlation

/-!
# What a frame does

Every frame is of one kind, told by its members (`FrameKind.Of`): it responds to a call, asks
something of the client, publishes diagnostics, or is of no interest. What the reader does about a
frame, step by step, hangs on nothing but its kind and on whether the call is registered that it
responds to (`Handled`). Whatever else happens in between, nothing else is done, but for the answer
to what was asked (`Answered`).
-/

namespace LspClient

open Program

/-! ### Kinds of frames -/

structure RespondsTo (frame : Json) (id : Nat) : Prop where
  number : (frame.get? "id").bind Json.nat? = some id
  noMethod : ∀ m, frame.get? "method" ≠ some (.str m)
  answers : frame.get? "result" ≠ none ∨ frame.get? "error" ≠ none

structure Asks (frame : Json) (r : ServerRequest) : Prop where
  id : frame.get? "id" = some r.id
  method : frame.get? "method" = some (.str r.method)
  params : frame.get? "params" = r.params

structure Publishes (frame : Json) (p : Publish) : Prop where
  noId : frame.get? "id" = none
  method : frame.get? "method" = some (.str Method.publishDiagnostics)
  params : ∃ j, frame.get? "params" = some j ∧ Publish.decode j = .ok p

inductive FrameKind where
  | response (id : Nat)
  | request (r : ServerRequest)
  | publish (p : Publish)
  | other

def FrameKind.Of (frame : Json) : FrameKind → Prop
  | .response id => RespondsTo frame id
  | .request r => Asks frame r
  | .publish p => Publishes frame p
  | .other => (∀ id, ¬ RespondsTo frame id) ∧ (∀ r, ¬ Asks frame r) ∧ ∀ p, ¬ Publishes frame p

theorem FrameKind.of_unique {frame : Json} {k k' : FrameKind} (h : k.Of frame)
    (h' : k'.Of frame) : k = k' := by
  have hid {id : Nat} (hr : RespondsTo frame id) : frame.get? "id" ≠ none := by
    intro hnone
    have hnumber := hr.number
    rw [hnone] at hnumber
    cases hnumber
  -- the kinds differ in their ids and methods: a response has no method, a publish no id
  cases k with
  | response id =>
    cases k' with
    | response id' =>
      obtain rfl : id = id' := Option.some.inj (h.number.symm.trans h'.number)
      rfl
    | request r => exact absurd h'.method (h.noMethod r.method)
    | publish p => exact absurd h'.noId (hid h)
    | other => exact absurd h (h'.1 id)
  | request r =>
    cases k' with
    | response id => exact absurd h.method (h'.noMethod r.method)
    | request r' =>
      obtain ⟨id, method, params⟩ := r
      obtain ⟨id', method', params'⟩ := r'
      obtain rfl : id = id' := Option.some.inj (h.id.symm.trans h'.id)
      have hmethod : Json.str method = Json.str method' :=
        Option.some.inj (h.method.symm.trans h'.method)
      cases hmethod
      obtain rfl : params = params' := h.params.symm.trans h'.params
      rfl
    | publish p =>
      have hnone := h'.noId
      rw [h.id] at hnone
      cases hnone
    | other => exact absurd h (h'.2.1 r)
  | publish p =>
    cases k' with
    | response id => exact absurd h.noId (hid h')
    | request r =>
      have hnone := h.noId
      rw [h'.id] at hnone
      cases hnone
    | publish p' =>
      obtain ⟨j, hj, hp⟩ := h.params
      obtain ⟨j', hj', hp'⟩ := h'.params
      obtain rfl : j = j' := Option.some.inj (hj.symm.trans hj')
      obtain rfl : p = p' := Except.ok.inj (hp.symm.trans hp')
      rfl
    | other => exact absurd h (h'.2.2 p)
  | other =>
    cases k' with
    | response id => exact absurd h' (h.1 id)
    | request r => exact absurd h' (h.2.1 r)
    | publish p => exact absurd h' (h.2.2 p)
    | other => rfl

namespace Connection

variable {ε α : Type} {i : Nat} {frame : Json} {w w' : World ε}

/-! ### What the reader does about a frame -/

/-- What is left of the reader when a frame is out of the pipe. -/
def takeFrame (i : Nat) (frame : Json) : Work ε Bool := do
  match ← Work.onConnection i (receive frame) with
  | .nothing => return true
  | .request r =>
    Program.fork (answer i r)
    return true
  | .response id outcome =>
    complete i id outcome
    return true

theorem reader_eq (i : Nat) : (reader i : Work ε Bool) = (do
    match ← Program.wait (nextEvent i) with
    | .frame v => takeFrame i v
    | .failed e =>
      if e.isRecoverable then return true
      else
        stopReading i
        return false
    | .ended =>
      stopReading i
      return false) := by
  rfl

/-- The connection without a call. -/
def withoutCall (id : Nat) (c : Connection) : Connection :=
  { c with calls := { c.calls with pending := c.calls.pending.erase id } }

/-- What has been done about a frame, by which steps and which services; `isOver` tells whether that
is all. -/
inductive Handled (i : Nat) (frame : Json) : FrameKind → List (World ε × World ε) →
    List (Work ε Bool) → (isOver : Bool) → Prop
  | none {k : FrameKind} : Handled i frame k [] [] false
  /-- The call is not registered. -/
  | stray {id : Nat} {w : World ε} (h : (w.connection i).calls.pending.get? id = .none) :
      Handled i frame (.response id) [(w, w)] [] true
  | taken {id : Nat} {w : World ε} {method : String}
      (h : (w.connection i).calls.pending.get? id = some method) :
      Handled i frame (.response id) [(w, w.onConnection i (withoutCall id))] [] false
  | completed {id : Nat} {w v : World ε} {method : String} {o : Except ResponseError Json}
      (h : (w.connection i).calls.pending.get? id = some method)
      (ho : Message.outcome? frame = some o) :
      Handled i frame (.response id) [(w, w.onConnection i (withoutCall id)),
        (v, v.onCalls i fun calls => calls.complete id (Calls.respond method o))] [] true
  | asked {r : ServerRequest} {w : World ε} : Handled i frame (.request r) [(w, w)] [] false
  | answers {r : ServerRequest} {w v : World ε} :
      Handled i frame (.request r) [(w, w), (v, v)] [once (answer i r)] true
  | published {p : Publish} {w : World ε} {cache : DiagnosticsCache}
      (h : (w.connection i).cache.Gains p.uri (p.items (w.connection i).name) cache) :
      Handled i frame (.publish p)
        [(w, w.onConnection i fun c => { c with cache })] [] true
  | dropped {w : World ε} : Handled i frame .other [(w, w)] [] true

/-- What taking a frame in comes to, by its kind. -/
inductive Receives (frame : Json) (c : Connection) : FrameKind → Received × Connection → Prop
  | stray {id : Nat} (h : c.calls.pending.get? id = .none) :
      Receives frame c (.response id) (.nothing, c)
  | taken {id : Nat} {method : String} {o : Except ResponseError Json}
      (h : c.calls.pending.get? id = some method) (ho : Message.outcome? frame = some o) :
      Receives frame c (.response id) (.response id (Calls.respond method o), c.withoutCall id)
  | asked {r : ServerRequest} : Receives frame c (.request r) (.request r, c)
  | published {p : Publish} {cache : DiagnosticsCache}
      (h : c.cache.Gains p.uri (p.items c.name) cache) :
      Receives frame c (.publish p) (.nothing, { c with cache })
  | dropped : Receives frame c .other (.nothing, c)

theorem method_of_bind {frame : Json} {m : String} :
    (frame.get? "method").bind Json.str? = some m ↔ frame.get? "method" = some (.str m) := by
  constructor
  · intro h
    obtain ⟨j, hj, hm⟩ := Option.bind_eq_some_iff.1 h
    cases j with
    | str s =>
      cases hm
      exact hj
    | _ => cases hm
  · intro h
    rw [h]
    rfl

theorem outcome?_eq_none {frame : Json} : Message.outcome? frame = none ↔
    frame.get? "result" = none ∧ frame.get? "error" = none := by
  unfold Message.outcome?
  cases frame.get? "error" <;> cases frame.get? "result" <;> simp

theorem receives_response {id : Nat} {o : Except ResponseError Json} (c : Connection)
    (ho : Message.outcome? frame = some o) :
    Receives frame c (.response id) (c.takeResponse id o) := by
  unfold takeResponse Calls.take
  cases hpending : c.calls.pending.get? id with
  | none => exact .stray hpending
  | some method => exact .taken hpending ho

/-- A frame has a kind, and what taking it in comes to hangs on its kind alone. -/
theorem exists_receives (frame : Json) :
    ∃ k : FrameKind, k.Of frame ∧ ∀ c, Receives frame c k (receive frame c) := by
  -- as the frame is classified: by its method first, then by its id
  unfold receive Message.classify
  cases hmethod : (frame.get? "method").bind Json.str? with
  | some m =>
    have hm := method_of_bind.1 hmethod
    have hno (id : Nat) : ¬ RespondsTo frame id := fun h => h.noMethod m hm
    cases hid : frame.get? "id" with
    | some j => exact ⟨.request ⟨j, m, frame.get? "params"⟩, ⟨hid, hm, rfl⟩, fun c => .asked⟩
    | none =>
      have hask (r : ServerRequest) : ¬ Asks frame r := fun h => by
        rw [h.id] at hid
        cases hid
      -- a notification is of interest if it is a publish that can be read
      by_cases hpub : ∃ p, Publishes frame p
      · obtain ⟨p, hp⟩ := hpub
        refine ⟨.publish p, hp, fun c => ?_⟩
        obtain ⟨params, hparams, hdecode⟩ := hp.params
        obtain rfl : m = Method.publishDiagnostics :=
          Json.str.inj (Option.some.inj (hm.symm.trans hp.method))
        simp only [hparams, ↓reduceIte, takePublish, hdecode]
        exact .published (DiagnosticsCache.gains_ingest _ _ _)
      · refine ⟨.other, ⟨hno, hask, fun p hp => hpub ⟨p, hp⟩⟩, fun c => ?_⟩
        cases hparams : frame.get? "params" with
        | none => exact .dropped
        | some params =>
          simp only
          split
          · next heq =>
            unfold takePublish
            cases hdecode : Publish.decode params with
            | error e => exact .dropped
            | ok p => exact absurd ⟨p, hid, heq ▸ hm, params, hparams, hdecode⟩ hpub
          · exact .dropped
  | none =>
    have hm (m : String) : frame.get? "method" ≠ some (.str m) := fun h => by
      rw [method_of_bind.2 h] at hmethod
      cases hmethod
    have hask (r : ServerRequest) : ¬ Asks frame r := fun h => hm r.method h.method
    have hpub (p : Publish) : ¬ Publishes frame p := fun h => hm _ h.method
    cases hnumber : (frame.get? "id").bind Json.nat? with
    | none =>
      have hother : FrameKind.other.Of frame := by
        refine ⟨fun id h => ?_, hask, hpub⟩
        rw [h.number] at hnumber
        cases hnumber
      refine ⟨.other, hother, fun c => ?_⟩
      cases hid : frame.get? "id" with
      | none => exact .dropped
      | some j =>
        rw [hid] at hnumber
        have hj : j.nat? = none := hnumber
        simp only [hj, Option.bind_eq_bind, Option.bind_none]
        exact .dropped
    | some id =>
      obtain ⟨j, hid, hj⟩ := Option.bind_eq_some_iff.1 hnumber
      simp only [hid, hj, Option.bind_eq_bind, Option.bind_some]
      -- a number with neither a result nor an error answers nothing
      cases ho : Message.outcome? frame with
      | none =>
        obtain ⟨hresult, herror⟩ := outcome?_eq_none.1 ho
        refine ⟨.other, ⟨fun id h => ?_, hask, hpub⟩, fun c => .dropped⟩
        rcases h.answers with h | h
        · exact h hresult
        · exact h herror
      | some o =>
        refine ⟨.response id, ⟨hnumber, hm, ?_⟩, fun c => receives_response c ho⟩
        by_contra hnot
        rw [not_or, not_not, not_not] at hnot
        rw [outcome?_eq_none.2 hnot] at ho
        cases ho

/-- Whatever happens in between, what has been done about a frame is what its kind asks for, and
the reader goes on with it by itself, and then with the next frame. -/
theorem handled_of_traces {R : World ε → World ε → Prop} {k : FrameKind}
    {steps : List (World ε × World ε)} {started : List (Work ε Bool)} {q : Work ε Bool}
    (hk : ∀ c, Receives frame c k (receive frame c))
    (h : (takeFrame i frame).Traces R w steps started q w') :
    Handled i frame k steps started q.result?.isSome ∧
      (q.result? = some true ∨ q.canMove w' = true) := by
  rcases Traces.act_bind_inv h with ⟨rfl, rfl, rfl⟩ | ⟨w₁, rest, rfl, hrest⟩
  · exact ⟨.none, .inr rfl⟩
  · have hreceives := hk (w₁.connection i)
    dsimp only at hrest ⊢
    generalize receive frame (w₁.connection i) = r at hrest hreceives ⊢
    cases hreceives with
    | stray hnone =>
      obtain ⟨rfl, rfl, rfl⟩ := hrest.pure_inv
      rw [setConnection_self]
      exact ⟨.stray hnone, .inl rfl⟩
    | taken hpending ho =>
      -- the outcome is handed on by an act of its own
      rcases Traces.act_bind_inv hrest with ⟨rfl, rfl, rfl⟩ | ⟨w₂, rest, rfl, hthen⟩
      · exact ⟨.taken hpending, .inr rfl⟩
      · obtain ⟨rfl, rfl, rfl⟩ := hthen.pure_inv
        exact ⟨.completed hpending ho, .inl rfl⟩
    | asked =>
      rw [setConnection_self] at hrest ⊢
      rcases Traces.start_bind_inv hrest with ⟨rfl, rfl, rfl⟩ | ⟨w₂, rest, new, rfl, rfl, hthen⟩
      · exact ⟨.asked, .inr rfl⟩
      · obtain ⟨rfl, rfl, rfl⟩ := hthen.pure_inv
        exact ⟨.answers, .inl rfl⟩
    | published hgains =>
      obtain ⟨rfl, rfl, rfl⟩ := hrest.pure_inv
      exact ⟨.published hgains, .inl rfl⟩
    | dropped =>
      obtain ⟨rfl, rfl, rfl⟩ := hrest.pure_inv
      rw [setConnection_self]
      exact ⟨.dropped, .inl rfl⟩

/-! ### Frames -/

/-- What a frame does that is taken out of the pipe of a connection, whatever happens in the
meantime. It has one kind; the reader does what that kind asks for, and can always go on; and what
is asked is answered once, by the service that the reader has started. -/
structure Dispatched (i : Nat) (frame : Json) (w : World ε) : Prop where
  reader : ∃ k : FrameKind, k.Of frame ∧ (∀ k' : FrameKind, k'.Of frame → k' = k) ∧
    ∀ steps started q w', (takeFrame i frame).Traces (fun _ _ => True) w steps started q w' →
      Handled i frame k steps started q.result?.isSome ∧
        (q.result? = some true ∨ q.canMove w' = true)
  answers : ∀ r, Asks frame r → ∀ v : World ε, w.connections.length ≤ v.connections.length →
    ∀ steps started q v', (once (answer i r)).Traces
      (fun w w' : World ε => w.connections.length ≤ w'.connections.length) v steps started q v' →
    started = [] ∧ Answered i r steps q
  goesOn : ∀ r, Asks frame r → ∀ (v : World ε) q v', Reaches World.Goes (once (answer i r)) v q v' →
    q.result? = none → (∃ v'', v'.Lets v'' ∧ q.canMove v'' = true) ∨ Full i v'

/-- For every connection of every world, and every JSON value. -/
theorem dispatched (frame : Json) (hi : i < w.connections.length) : Dispatched i frame w := by
  obtain ⟨k, hk, hreceives⟩ := exists_receives frame
  exact {
    reader := ⟨k, hk, fun k' hk' => FrameKind.of_unique hk' hk, fun steps started q w' h =>
      handled_of_traces hreceives h⟩
    answers := fun r _ v hv steps started q v' h =>
      ⟨(startsNone_answer.traces h).1,
        answered_of_traces (Nat.lt_of_lt_of_le hi hv) (fun _ _ h => h) h⟩
    goesOn := fun r _ v q v' => answer_goes_on }

/-- A request that looks like a response, too. -/
def mixedFrame : Json :=
  .object [("id", .nat 7), ("method", .str "client/registerCapability"), ("result", .null)]

theorem dispatched_mixedFrame :
    (FrameKind.request ⟨.nat 7, "client/registerCapability", none⟩).Of mixedFrame ∧
      0 < alone.connections.length ∧ Dispatched 0 mixedFrame alone :=
  ⟨⟨rfl, rfl, rfl⟩, Nat.zero_lt_one, dispatched mixedFrame Nat.zero_lt_one⟩

end Connection

end LspClient
