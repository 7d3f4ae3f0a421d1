import LspClient.Proofs.Connection.Obeying
import LspClient.Proofs.Document.Operations

/-!
# Programs that touch one connection only

A request, a notification, and an operation on a document take steps on one connection. All others
stay as they are, and so do the files and the cancellations (`Touches`).
-/

namespace LspClient

open Program

namespace Connection

variable {ε α : Type} {i j : Nat} {w w' : World ε}

structure Touches (j : Nat) (w w' : World ε) : Prop where
  others : ∀ i, i ≠ j → w'.connection i = w.connection i
  length : w'.connections.length = w.connections.length
  files : w'.files = w.files
  cancelled : w'.cancelled = w.cancelled

namespace Touches

theorem refl (w : World ε) : Touches j w w := ⟨fun _ _ => rfl, rfl, rfl, rfl⟩

theorem setConnection (w : World ε) (c : Connection) : Touches j w (w.setConnection j c) where
  others _ hi := connection_setConnection_ne hi w c
  length := List.length_set
  files := rfl
  cancelled := rfl

end Touches

/-! ### Steps -/

theorem touches_onConnection (f : Connection → α × Connection) :
    Keeps (Touches j) (Work.onConnection j f : Work ε α) :=
  Keeps.act fun w => .setConnection w _

theorem touches_update (f : Connection → Connection) :
    Keeps (Touches j) (update (World.onConnection j f) : Work ε Unit) :=
  Keeps.update fun w => .setConnection w _

theorem touches_look {view : World ε → α} : Keeps (Touches j) (look view) := Keeps.look .refl

theorem touches_within {limit : Limit} (step : Connection → Option (α × Connection)) :
    Keeps (Touches j) (Work.within limit (stepOn j step) : Work ε (Except Failure α)) :=
  keeps_within .refl fun w a w' hs => by
    obtain ⟨⟨a', c⟩, -, heq⟩ := Option.map_eq_some_iff.1 hs
    cases heq
    exact .setConnection w c

/-! ### Notifications and requests -/

theorem touches_enqueue {ticket : Nat} {command : Command} {limit : Limit} :
    Keeps (Touches j) (enqueue j ticket command limit : Work ε (Except Failure Unit)) := by
  refine Keeps.bind (touches_within _) fun r => ?_
  match r with
  | .ok _ => exact Keeps.pure _
  | .error _ => exact Keeps.bind (touches_update _) fun _ => Keeps.pure _

theorem touches_send {frame : Json} {limit : Limit} :
    Keeps (Touches j) (send j frame limit : Work ε (Except Failure Unit)) := by
  refine Keeps.bind (touches_onConnection _) fun ticket => Keeps.bind touches_enqueue fun r => ?_
  match r with
  | .error _ => exact Keeps.pure _
  | .ok () =>
    refine Keeps.bind (touches_within _) fun r => ?_
    match r with
    | .ok _ => exact Keeps.pure _
    | .error _ => exact Keeps.bind (touches_update _) fun _ => Keeps.pure _

theorem touches_notify {method : String} {params : Option Json} :
    Keeps (Touches j) (notify j method params : Work ε (Except Failure Unit)) := by
  refine Keeps.bind touches_look fun c => ?_
  split
  · exact Keeps.pure _
  · exact Keeps.bind (Keeps.update fun w => .setConnection w _) fun _ => touches_send

theorem touches_exchange {id : Nat} {frame : Json} {limit : Limit} :
    Keeps (Touches j) (exchange j id frame limit : Work ε (Except Failure Json)) := by
  refine Keeps.bind touches_send fun r => ?_
  match r with
  | .error _ => exact Keeps.pure _
  | .ok () =>
    refine Keeps.bind (touches_within _) fun r => ?_
    cases r <;> exact Keeps.pure _

theorem touches_giveUp {id : Nat} {e : Failure} :
    Keeps (Touches j) (giveUp j id e : Work ε Unit) := by
  refine Keeps.bind (touches_onConnection _) fun wasPending => ?_
  split
  · exact touches_update _
  · exact Keeps.pure _

theorem touches_request {method : String} {params : Option Json} {token : Token}
    {timeout : Option Nat} :
    Keeps (Touches j) (request j method params token timeout : Work ε (Except Failure Json)) := by
  refine Keeps.bind touches_look fun c => ?_
  split
  · exact Keeps.pure _
  refine Keeps.bind touches_look fun cancelled => ?_
  split
  · exact Keeps.pure _
  refine Keeps.bind touches_look fun uptime => Keeps.bind (touches_onConnection _) fun id =>
    Keeps.bind (touches_onConnection _) fun r => ?_
  match r with
  | .error _ => exact Keeps.pure _
  | .ok () =>
    refine Keeps.bind touches_look fun started => Keeps.bind touches_look fun c =>
      Keeps.bind touches_exchange fun r => ?_
    match r with
    | .ok _ => exact Keeps.pure _
    | .error _ => exact Keeps.bind touches_giveUp fun _ => Keeps.pure _

/-! ### Documents -/

/-- What holds of all steps on a connection holds of the operations on its documents. -/
theorem keeps_documents {G : World ε → World ε → Prop} {token : Token}
    (hG : ∀ w w', Touches j w w' → G w w') :
    Document.Parts (ε := ε) j token fun p => Keeps G p where
  pure := Keeps.pure
  bind := Keeps.bind
  look := touches_look.mono hG
  update _ := (touches_update _).mono hG
  join _ := (touches_onConnection _).mono hG
  lock _ := (touches_within _).mono hG
  read _ := (Work.keeps_inBackground (fun _ => ⟨fun _ _ => rfl, rfl, rfl, rfl⟩) .refl).mono hG
  notify _ _ := touches_notify.mono hG

end Connection

end LspClient
