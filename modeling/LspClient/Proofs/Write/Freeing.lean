import LspClient.Proofs.Process.Commands
import LspClient.Proofs.Write.Heeding
import LspClient.Session.Processes

/-!
# A write that was cancelled goes on

A deadline that expires, and a caller who gives up, cancel the token of a write. Whatever servers,
linters and writers do, or leave undone, its pipeline then goes on by itself, wherever it stands,
and so comes to put the file on disk (`pipeline_freed`).

There is one wait that does not end so: a notification waits for the writer of its connection
whether the token is cancelled or not. A server that does not read holds a writer up, and with it
the pipeline (`pipeline_held`).
-/

namespace LspClient

open Program World Work

variable {ε α : Type} {token : Token}

/-! ### Linters that are commands -/

theorem World.OnProcesses.goes {w w' : World ε} (h : OnProcesses w w') : w.Goes w' := by
  obtain ⟨pipes, children, rfl⟩ := h
  exact goes_of_eq rfl rfl rfl

namespace CommandLinter

theorem heedful_start {machine : Machine ε} {program : String} {args : List String}
    {dir : Option Path} : (Process.start machine program args dir).Heedful (heeding token) := by
  refine .bind (.act fun w => (OnProcesses.prepare program args dir w).goes) fun r => ?_
  match r with
  | .error e => exact .pure _
  | .ok b => exact .bind .fork fun _ => .pure _

theorem heedful_drop {r : Running} : (drop r : Work ε _).Heedful (heeding token) := by
  refine .bind (.update fun w => goes_of_eq rfl rfl rfl) fun _ => ?_
  refine .bind (.update fun w => goes_onPipe w _ _) fun _ => ?_
  refine .bind (.update fun w => goes_onPipe w _ _) fun _ => ?_
  exact .update fun w => goes_onPipe w _ _

/-- A command is dropped when the token is cancelled, whatever its process does. -/
theorem heedful_format {machine : Machine ε} {name program content : String}
    {args : List String} {path : Path} :
    (format machine name program args path content token).Heedful (heeding token) := by
  refine .bind heedful_isCancelled fun cancelled => ?_
  split
  · exact .pure _
  refine .bind heedful_start fun r => ?_
  match r with
  | .error e => exact .pure _
  | .ok r =>
    refine .bind (.abandonWhen (keeps_converse (fun _ _ h => h.goes) r _)
      fun _ h => h) fun f => ?_
    match f with
    | some f => exact .pure _
    | none => exact .bind heedful_drop fun _ => .pure _

theorem heeds_all (machine : Machine ε) (name : String) (kind : LinterKind) :
    (all machine name kind).Heeds := by
  cases kind with
  | registered adapter => exact ⟨fun _ _ _ => .pure _, fun _ _ _ => .pure _⟩
  | command program args => exact ⟨fun _ _ _ => .pure _, fun _ _ _ => heedful_format⟩

end CommandLinter

/-! ### The pipeline -/

namespace Session

variable {s : Session ε}

theorem heedful_persist {path : Path} {content : String} :
    (persist path content : Work ε _).Heedful (heeding token) := by
  refine .bind (heedful_inBackground (goes_writeText path content)) fun e => ?_
  cases e <;> exact .pure _

theorem heedful_parts (hlinters : ∀ name kind, (s.linters name kind).Heeds) :
    s.Parts token fun p => p.Heedful (heeding token) where
  pure := .pure
  bind := .bind
  all := .all
  look := .look
  sleep _ := heedful_sleepWithin
  document _ := Document.heedful_parts
  connect _ _ _ _ := Registry.heedful_getOrCreate
  request _ _ _ _ := Connection.heedful_request
  store _ _ := heedful_persist
  lint name kind path expiry := (hlinters name kind).lint path token expiry
  format name kind path content := (hlinters name kind).format path content token

/-- Wherever a pipeline stands, when its token is cancelled it can go on by itself, or the writer of
a connection holds it up. -/
theorem pipeline_freed (hlinters : ∀ name kind, (s.linters name kind).Heeds) {entry : WriteEntry}
    {timeout : Nat} {w w' : World ε} {p : Work ε (Except Failure WriteReport)}
    (hreach : Reaches Goes (s.pipeline entry timeout token) w p w')
    (hcancelled : w'.isCancelled token = true) (hgoing : p.result? = none) :
    (∃ w'', w'.Lets w'' ∧ p.canMove w'' = true) ∨ ∃ i, Connection.HeldUp i w' p := by
  have hheeds : p.Heeds (heeding token) w' := ((heedful_parts hlinters).pipeline w).reaches hreach
  -- to heed the token is all that is asked of the parts; where it stops is at a writer
  rcases hheeds.goes_on hcancelled hgoing with hgoes | ⟨β, q, ⟨i, hwaits⟩, hlasts, hstands⟩
  · exact .inl hgoes
  · exact .inr ⟨i, hwaits.heldUp hlasts hstands⟩

/-- A machine whose processes do nothing. -/
def silent : Machine Unit := fun _ _ => Program.wait fun _ => none

def serverEntry : ServerConfig := ⟨⟨"s", [], "c", ["c"], [], none, none, none⟩⟩

def oneServer : Session Unit :=
  .ofProcesses silent ⟨"/"⟩ { Settings.default with servers := [("s", serverEntry)] }

def sourceEntry : WriteEntry := ⟨⟨"/a.c"⟩, "int x;", ⟨true, false⟩⟩

/-- A world with a slot in the registry, in which the first number is taken. -/
def withSlot (slot : Slot) : World Unit :=
  { World.ofFiles FileTree.empty () with
    registry := { Registry.empty with slots := [(ConnectionKey.make serverEntry ⟨"/"⟩, slot)] }
    nextNumber := 1 }

/-- A write, when the others do this and that between its steps. -/
def played (others : List (World Unit → World Unit)) (w : World Unit) :
    World Unit × Work Unit (Except Failure WriteReport) :=
  playOn others (w, oneServer.pipeline sourceEntry 0 [0])

theorem reaches_played (others : List (World Unit → World Unit))
    (h : ∀ f ∈ others, ∀ w : World Unit, w.Goes (f w)) (w : World Unit) :
    Reaches Goes (oneServer.pipeline sourceEntry 0 [0]) w (played others w).2 (played others w).1 :=
  reaches_playOn others h .start

/-- The server is not connected yet. -/
def connecting : World Unit × Work Unit (Except Failure WriteReport) :=
  played (List.replicate 10 id) (withSlot (.starting 0 "s" ["c"]))

theorem pipeline_freed_connecting :
    connecting.2.canMove connecting.1 = false ∧ connecting.2.result? = none ∧
      ((∃ w, (connecting.1.cancel 0).Lets w ∧ connecting.2.canMove w = true) ∨
        ∃ i, Connection.HeldUp i (connecting.1.cancel 0) connecting.2) := by
  have hreach := reaches_played (List.replicate 10 id)
    (fun f hf w => List.eq_of_mem_replicate hf ▸ .refl w) (withSlot (.starting 0 "s" ["c"]))
  exact ⟨by decide +kernel, by decide +kernel, pipeline_freed (CommandLinter.heeds_all silent)
    (hreach.others (goes_cancel 0 _)) (by decide +kernel) (by decide +kernel)⟩

/-! ### A server that does not read -/

/-- A turn of the writer, if it has anything to do. -/
def writerTurn (w : World Unit) : World Unit :=
  ((Connection.writerStep 0 w).map Prod.snd).getD w

theorem goes_writerTurn (w : World Unit) : w.Goes (writerTurn w) := by
  unfold writerTurn Connection.writerStep
  dsimp only
  split
  · unfold Connection.writeSome
    dsimp only
    split
    · exact goes_of_eq rfl rfl rfl
    · split
      · exact .refl w
      · exact goes_of_eq rfl rfl rfl
  · split <;> exact goes_of_eq rfl rfl rfl

/-- A writer with a frame under way waits while its pipe is full. -/
theorem canMove_writer {i : Nat} {w : World ε} (hwriting : (w.connection i).writing.isSome = true)
    (hopen : (w.pipe (w.connection i).output).sinkClosed = false)
    (hfull : (w.pipe (w.connection i).output).isFull = true) :
    (Connection.writer i).canMove w = false := by
  obtain ⟨⟨bytes, ticket⟩, hsome⟩ := Option.isSome_iff_exists.1 hwriting
  change (Connection.writerStep i w).isSome = false
  simp [Connection.writerStep, Connection.writeSome, hsome, hopen, hfull]

def unreadPipe : Pipe := ⟨List.replicate Pipe.capacity 0, false, false⟩

/-- The server is connected, and has left so much unread that its pipe is full. -/
def unread : World Unit :=
  { withSlot (.ready 0 "s" 0) with
    pipes := [Pipe.empty, unreadPipe]
    connections := [Connection.make (.ofServer "s" serverEntry ⟨"/"⟩ 30000) 0 1 none 0] }

/-- A write, up to where the writer has taken its first notification in. -/
def stalled : World Unit × Work Unit (Except Failure WriteReport) :=
  played (List.replicate 20 id ++ [writerTurn]) unread

/-- The token is cancelled, and the server has still read nothing. -/
def leftUnread (w : World Unit) : World Unit := { w.cancel 0 with pipes := unread.pipes }

/-- Nothing but the server can make the writer and the pipeline go on, and no file is there. -/
theorem pipeline_held :
    Reaches Goes (oneServer.pipeline sourceEntry 0 [0]) unread stalled.2 (leftUnread stalled.1) ∧
      (leftUnread stalled.1).isCancelled [0] = true ∧ stalled.2.result? = none ∧
      (leftUnread stalled.1).files.isFile sourceEntry.path = false ∧
      (∀ w, (leftUnread stalled.1).Lets w → stalled.2.canMove w = false) ∧
      (Connection.writer 0).canMove (leftUnread stalled.1) = false := by
  have hreach := reaches_played (List.replicate 20 id ++ [writerTurn])
    (fun f hf w => by
      rcases List.mem_append.1 hf with hf | hf
      · exact List.eq_of_mem_replicate hf ▸ .refl w
      · exact List.mem_singleton.1 hf ▸ goes_writerTurn w) unread
  have hlast : stalled.1.Goes (leftUnread stalled.1) :=
    (goes_cancel 0 stalled.1).trans (goes_of_eq rfl rfl rfl)
  refine ⟨hreach.others hlast, by decide +kernel, by decide +kernel, by decide +kernel,
    fun w hlets => ?_, ?_⟩
  · have hjobs : (leftUnread stalled.1).jobs = [] := by decide +kernel
    cases hlets with
    | nothing => decide +kernel
    | ends hjob =>
      rw [hjobs] at hjob
      cases hjob
  · have hwriting : ((leftUnread stalled.1).connection 0).writing.isSome = true := by
      decide +kernel
    have houtput : ((leftUnread stalled.1).connection 0).output = 1 := by decide +kernel
    have hpipe : (leftUnread stalled.1).pipe 1 = unreadPipe := rfl
    refine canMove_writer hwriting ?_ ?_ <;> rw [houtput, hpipe]
    · rfl
    · simp [unreadPipe, Pipe.isFull]

end Session

end LspClient
