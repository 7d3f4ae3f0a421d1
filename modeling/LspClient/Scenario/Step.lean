import LspClient.Scenario.Answer
import LspClient.Scenario.Files
import LspClient.Scenario.Peer

/-!
# Steps

A scenario is a list of steps, taken one after another. If it settles, there is a millisecond
between them in which everything that was set off comes to rest. A step may wait before it begins,
and its token may be cancelled from the start or some time later. Steps within a `par` step are
taken side by side.
-/

namespace LspClient.Scenario

/-- What the steps of a scenario are about. -/
structure Acting where
  /-- The files at the beginning. -/
  files : Json
  /-- The step that an action stands for, with the token it is given. -/
  perform : String → Json → Token → Play Json
  settles : Bool

def done : Json := .str "ok"

/-- The token of a step. -/
def tokenOf (step : Json) : Play Token := do
  let (number, token) ← Work.childToken Token.never
  if flag step "cancelled" then Program.update (World.cancel number)
  match natural? step "cancel_after_ms" with
  | some ms =>
    Program.fork do
      Work.sleep ms
      Program.update (World.cancel number)
  | none => pure ()
  return token

/-! ### Files and time -/

def putFiles (step : Json) (w : World Stage) : World Stage :=
  { w with files := populate w.files root (step.member "files") }

/-- Remove a file; the answer says whether that worked. -/
def deleteFile (step : Json) (w : World Stage) : Bool × World Stage :=
  match w.files.removeFile (root.join ⟨text step "file"⟩) with
  | .ok files => (true, { w with files })
  | .error _ => (false, w)

/-- By how much idleness grows when a scenario lets time pass. -/
def idleStep : Nat := 5

def growIdle (w : World Stage) : World Stage := { w with uptime := w.uptime + idleStep }

/-! ### Peers -/

def versionAndText (frame : Json) : Json × Json :=
  let document := (frame.member "params").member "textDocument"
  let change := ((frame.member "params").member "contentChanges").item 0
  let content := match change.get? "text" with
    | some t => t
    | none => document.member "text"
  (document.member "version", content)

/-- Frames by the documents they are about. -/
def byFile (frames : List Json) : Json :=
  .object ((frames.foldl (fun (t : Table String (List Json)) frame =>
      let uri := Peer.uriOf frame
      let (version, content) := versionAndText frame
      t.put uri ((t.get? uri).getD [] ++ [.arr [frame.member "method", version, content]])) []).map
    fun (uri, entries) => (uri, .arr entries))

/-- What a step has a peer do. -/
def peerStep (k : Nat) (action : String) (step : Json) : Play Json := do
  match action with
  | "send" =>
    Program.update (Peer.sendFrame k (step.member "frame"))
    return done
  | "send_raw" =>
    Program.update (Peer.sendBytes k (contentOf (step.member "data")))
    return done
  | "crash" =>
    Program.update (Peer.crash k)
    return done
  | "deaf" =>
    Program.update (Peer.deafen k)
    return done
  | "received" => return .arr (← Program.act (Peer.look k))
  | _ => return byFile (← Program.act (Peer.look k))

def isPeerAction (action : String) : Bool :=
  ["send", "send_raw", "crash", "deaf", "received", "received_by_file"].contains action

/-! ### Taking steps -/

/-- The deepest nesting of steps. -/
def maxNesting : Nat := 128

def takeStep (acting : Acting) : Nat → Json → Play Json
  | 0, _ => return .null
  | depth + 1, step => do
    match natural? step "after_ms" with
    | some ms => Work.sleep ms
    | none => pure ()
    let token ← tokenOf step
    match text step "do" with
    | "par" =>
      return .arr (← Program.all ((items step "steps").map (takeStep acting depth)))
    | "put" =>
      Program.update (putFiles step)
      return done
    | "delete" => return .bool (← Program.act (deleteFile step))
    | "files" => Program.look fun w => changes acting.files w.files
    | "advance" =>
      Program.update growIdle
      Work.sleep (natural step "ms")
      return done
    | action => acting.perform action step token

/-- Take all steps. -/
def takeSteps (acting : Acting) : List Json → Play (List Json)
  | [] => return []
  | step :: rest => do
    let answer ← takeStep acting maxNesting step
    if acting.settles then Work.sleep 1
    return answer :: (← takeSteps acting rest)

end LspClient.Scenario
