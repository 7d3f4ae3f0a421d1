import LspClient.Proofs.Process.Commands
import LspClient.Proofs.Registry.Connectors
import LspClient.Proofs.Write.Parts
import LspClient.Session.Processes

/-!
# Programs that leave the batches alone

Batches are the business of those who write. Connections, the registry and the pipeline itself
leave them alone, whatever they do to the rest of the world (`SameBatches`), if the connector and
the linters of a session do (`LeavesBatches`); those that run processes do if the programs of the
machine do.
-/

namespace LspClient

open Program

variable {ε α β : Type} {i : Nat} {token : Token} {w w' : World ε}

def World.SameBatches (w w' : World ε) : Prop := w'.batches = w.batches

open World (SameBatches)

theorem World.SameBatches.refl (w : World ε) : SameBatches w w := rfl

theorem World.OnProcesses.sameBatches (h : World.OnProcesses w w') : SameBatches w w' := by
  obtain ⟨pipes, children, rfl⟩ := h
  rfl

/-! ### Connections -/

namespace Connection

theorem unbatched_parts : Parts (ε := ε) i fun p => Keeps SameBatches p :=
  parts_keeps (fun _ _ h => h.batches) fun _ _ h => h.batches

theorem unbatched_documents : Document.Parts (ε := ε) i token fun p => Keeps SameBatches p where
  pure := .pure
  bind := .bind
  look := .look fun _ => rfl
  update _ := .update fun _ => rfl
  join _ := .act fun _ => rfl
  lock _ := keeps_within (fun _ => rfl) fun w r w' hs => by
    obtain ⟨⟨r', c'⟩, -, heq⟩ := Option.map_eq_some_iff.1 hs
    cases heq
    rfl
  read _ := Work.keeps_inBackground (fun _ => rfl) fun _ => rfl
  notify _ _ := keeps_notify (fun _ _ h => h.batches) fun _ _ h => h.batches

theorem unbatched_start {options : ConnectionOptions} {input output : Nat}
    {process : Option Running} :
    Keeps SameBatches (start options input output process : Work ε Nat) := by
  have hstreams (i : Nat) : Keeps SameBatches (do
      Program.start (writer i)
      Program.start (reader i)
      return i : Work ε Nat) := by
    have hwriter : Keeps SameBatches (writer i : Work ε Bool) :=
      keeps_writer (fun _ _ h => h.batches) fun _ _ h => h.batches
    have hreader : Keeps SameBatches (reader i : Work ε Bool) :=
      unbatched_parts.reader fun _ => .act fun _ => rfl
    exact .bind (.start hwriter) fun _ => .bind (.start hreader) fun _ => .pure _
  refine .bind (.act fun w => rfl) fun i => ?_
  cases process with
  | none => exact hstreams i
  | some p => exact .bind (.start unbatched_parts.errorReader) fun _ => hstreams i

end Connection

/-! ### The registry -/

namespace Registry

theorem unbatched_step {f : Registry → α × Registry} :
    Keeps SameBatches (Program.locked (step f) : Work ε α) := .locked fun _ => rfl

theorem unbatched_watch {key : ConnectionKey} {generation : Nat} :
    Keeps SameBatches (watch key generation i : Work ε Unit) := by
  refine .bind Connection.unbatched_parts.untilClosed fun _ => .bind unbatched_step fun r => ?_
  match r with
  | some i => exact Connection.unbatched_parts.shutdown
  | none => exact .pure _

theorem unbatched_create {connect : Connector ε} {key : ConnectionKey} {generation : Nat}
    {name : String} {config : ServerConfig}
    (hconnect : Keeps SameBatches (connect name config key.cwd)) :
    Keeps SameBatches (create connect key generation name config) := by
  have htell (outcome : Except Failure Nat) :
      Keeps SameBatches (tellWaiting generation outcome : Work ε Unit) := .update fun _ => rfl
  refine .bind hconnect fun created => .bind unbatched_step fun kept => ?_
  match created with
  | .error e => exact htell _
  | .ok i =>
    change Keeps SameBatches (if kept = true then _ else _)
    split
    · exact .bind (.fork unbatched_watch) fun _ => htell _
    · exact .bind Connection.unbatched_parts.shutdown fun _ => htell _

theorem unbatched_claimNow (key : ConnectionKey) (name : String) (config : ServerConfig)
    (w : World ε) : SameBatches w (claimNow key name config w).2 := by
  unfold claimNow
  dsimp only
  split <;> rfl

theorem unbatched_getOrCreate {connect : Connector ε} {name : String} {config : ServerConfig}
    {cwd : Path} {warmup : Option Nat}
    (hconnect : ∀ cwd, Keeps SameBatches (connect name config cwd)) :
    Keeps SameBatches (getOrCreate connect name config cwd warmup token) := by
  refine .bind (.look fun _ => rfl) fun shut => ?_
  split
  · exact .pure _
  refine .bind (.look fun _ => rfl) fun started => ?_
  refine .bind (.locked (unbatched_claimNow _ name config)) fun found => ?_
  match found with
  | .alive i => exact .pure _
  | .starting g => exact keeps_outcomeOf SameBatches.refl
  | .vacant g =>
    exact .bind (.fork (unbatched_create (hconnect _))) fun _ => keeps_outcomeOf SameBatches.refl

end Registry

/-! ### Sessions -/

namespace Session

structure LeavesBatches (s : Session ε) : Prop where
  connect : ∀ name config cwd, Keeps SameBatches (s.connect name config cwd)
  lint : ∀ name kind path limit, Keeps SameBatches ((s.linters name kind).lint path limit)
  format : ∀ name kind path content token,
    Keeps SameBatches ((s.linters name kind).format path content token)

theorem leavesBatches_ofProcesses {machine : Machine ε} {root : Path} {settings : Settings}
    (hmachine : ∀ name invocation, Keeps SameBatches (machine name invocation)) :
    (Session.ofProcesses machine root settings).LeavesBatches where
  connect name config cwd := by
    refine .bind (.look fun _ => rfl) fun program => ?_
    match program with
    | .error m => exact .pure _
    | .ok program =>
      refine .bind (Process.keeps_start (fun _ _ h => h.sameBatches) hmachine _ _ _) fun r => ?_
      match r with
      | .error e => exact .pure _
      | .ok running =>
        exact .bind Connection.unbatched_start fun i => Connection.unbatched_parts.establish
  lint name kind path limit := by cases kind <;> exact .pure _
  format name kind path content token := by
    cases kind with
    | registered adapter => exact .pure _
    | command program args =>
      exact CommandLinter.keeps_format (fun _ _ h => h.sameBatches) hmachine

variable {s : Session ε}

theorem unbatched_parts (hs : s.LeavesBatches) : s.Parts token fun p => Keeps SameBatches p where
  toWaits := keeps_waits SameBatches.refl fun name kind path _ => hs.lint name kind path _
  document _ := Connection.unbatched_documents
  connect name config _ _ := Registry.unbatched_getOrCreate (hs.connect name config)
  request _ _ _ _ := Connection.unbatched_parts.request
  store _ _ := keeps_persist (G := SameBatches) (fun _ => rfl) fun _ _ => rfl
  format name kind path content := hs.format name kind path content token

theorem unbatched_deadline {limit number : Nat} :
    Keeps SameBatches (deadline limit number : Work ε Unit) := by
  refine .await fun w a w' h => ?_
  split at h
  · cases h
    rfl
  · obtain ⟨-, heq⟩ := Option.ite_none_right_eq_some.1 h
    cases heq
    rfl

/-- A write leaves the batches alone, whatever becomes of it. -/
theorem unbatched_writeEntry (hs : s.LeavesBatches) {entry : WriteEntry} {timeout : Nat} :
    Keeps SameBatches (s.writeEntry entry timeout token) := by
  have h : s.Parts token fun p => Keeps SameBatches p := unbatched_parts hs
  refine h.run_bind (h.run_perform (.act fun _ => rfl)) fun ⟨number, child⟩ => ?_
  refine h.run_bind (h.run_lift h.look) fun now => ?_
  refine h.run_bind (h.run_lift (.fork unbatched_deadline)) fun _ => ?_
  refine h.run_bind (unbatched_parts hs).pipeline fun outcome => ?_
  refine h.run_bind (h.run_lift (.update fun _ => rfl)) fun _ => ?_
  match outcome with
  | .error e => exact .pure _
  | .ok r =>
    refine h.run_bind (h.run_lift h.look) fun stopped => ?_
    split
    · exact h.run_bind (h.run_lift h.look) fun byCaller => .pure _
    · exact .pure _

end Session

end LspClient
