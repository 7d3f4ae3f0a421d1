import LspClient.Proofs.Text.Bytes
import LspClient.Proofs.Write.Describes

/-!
# What a write leaves behind

The last act of a write is to put a text on disk, whatever servers and linters answer and whenever
the write is cancelled (`writeEntry_lands`). It fails only when that act does. Otherwise its report
tells what the text is, how long it is, and whether the write was cancelled by the end, and by whom.
-/

namespace LspClient

open WriteEvent

variable {ε : Type}

/-! ### Cancellation -/

namespace World

/-- Cancellation is for good. -/
def StaysCancelled (w w' : World ε) : Prop := ∀ n ∈ w.cancelled, n ∈ w'.cancelled

theorem StaysCancelled.refl (w : World ε) : w.StaysCancelled w := fun _ h => h

theorem StaysCancelled.trans {w w' w'' : World ε} (h : w.StaysCancelled w')
    (h' : w'.StaysCancelled w'') : w.StaysCancelled w'' := fun n hn => h' n (h n hn)

theorem staysCancelled_of_eq {w w' : World ε} (h : w'.cancelled = w.cancelled) :
    w.StaysCancelled w' := fun _ hn => h ▸ hn

theorem isCancelled_iff {w : World ε} {token : Token} :
    w.isCancelled token = true ↔ ∃ n ∈ token, n ∈ w.cancelled := by
  simp [isCancelled]

theorem isCancelled_cons {w : World ε} {n : Nat} {token : Token} :
    w.isCancelled (n :: token) = (w.cancelled.contains n || w.isCancelled token) := rfl

theorem StaysCancelled.isCancelled {w w' : World ε} {token : Token} (h : w.StaysCancelled w')
    (hw : w.isCancelled token = true) : w'.isCancelled token = true := by
  obtain ⟨n, hn, hc⟩ := isCancelled_iff.1 hw
  exact isCancelled_iff.2 ⟨n, hn, h n hc⟩

end World

/-! ### Texts on disk -/

/-- The answer to having put a text into a file, by what went wrong. -/
def storeAnswer (path : Path) : Option FileError → Except Failure Unit
  | none => .ok ()
  | some f => .error (.file path f.message)

/-- The last act was to put `text` into the file at `path`. -/
def EndsWithStore (log : List (WriteEvent ε)) (path : Path) (text : String)
    (failure : Option FileError) : Prop :=
  ∃ before w w', log = before ++ [stored path text (storeAnswer path failure) w'] ∧
    Workspace.writeText path text w = (failure, w')

namespace Session

/-! ### How a write ends -/

section Ends

variable {R : World ε → World ε → Prop} {w w' : World ε}

/-- Work in the background is begun at one state, and done at a later one. -/
theorem ends_inBackground {α : Type} {step : World ε → α × World ε} {a : α}
    (h : (Work.inBackground step).Ends R w w' a) :
    ∃ w₁ w₀, R w w₁ ∧ R w₁.beginJob.2 w₀ ∧ step w₀ = (a, w') := by
  obtain ⟨w₂, job, hbegin, h⟩ := h.bind_inv
  obtain ⟨w₁, hbegun, hbegin⟩ := hbegin.act_inv
  obtain ⟨w₀, hdone, hstep⟩ := h.await_inv
  split at hstep
  · cases hbegin
    exact ⟨w₁, w₀, hbegun, hdone, Option.some.inj hstep⟩
  · cases hstep

theorem inBackground_ends {α : Type} {step : World ε → α × World ε} {a : α} (w₁ w₀ : World ε)
    (hbegun : R w w₁) (hdone : R w₁.beginJob.2 w₀)
    (hfinished : w₀.isFinished w₁.beginJob.1 = true) (hstep : step w₀ = (a, w')) :
    (Work.inBackground step).Ends R w w' a := by
  have htaken : (if w₀.isFinished w₁.beginJob.1 then some (step w₀) else none) = some (a, w') := by
    rw [if_pos hfinished, hstep]
  exact .step hbegun (.await rfl) (.step hdone (.await htaken) .done)

theorem ends_persist {path : Path} {text : String} {answer : Except Failure Unit}
    (h : (persist path text).Ends R w w' answer) :
    ∃ failure w₀, answer = storeAnswer path failure ∧
      Workspace.writeText path text w₀ = (failure, w') := by
  obtain ⟨w₁, failure, hwrite, h⟩ := h.bind_inv
  obtain ⟨_, w₀, -, -, hw₀⟩ := ends_inBackground hwrite
  cases failure with
  | none =>
    obtain ⟨rfl, rfl⟩ := h.pure_inv
    exact ⟨none, w₀, rfl, hw₀⟩
  | some f =>
    obtain ⟨rfl, rfl⟩ := h.pure_inv
    exact ⟨some f, w₀, rfl, hw₀⟩

theorem ends_childToken {parent : Token} {child : Nat × Token}
    (h : (Work.childToken parent).Ends R w w' child) : child.2 = child.1 :: parent := by
  obtain ⟨w₁, -, h⟩ := h.act_inv
  cases h
  rfl

theorem ends_isCancelled {token : Token} {b : Bool}
    (h : (Work.isCancelled token).Ends R w w' b) : R w w' ∧ b = w'.isCancelled token :=
  h.look_inv

/-- A store at the end of the log of a run was one on disk. -/
theorem endsWithStore_of_runs {α : Type} {s : Session ε} {p : WriteScript ε α} {a : α}
    {path : Path} {text : String} {answer : Except Failure Unit} {w₁ : World ε}
    (before : List (WriteEvent ε))
    (h : p.Runs (WriteAct.performed s) R w (before ++ [stored path text answer w₁]) w' a) :
    ∃ failure, answer = storeAnswer path failure ∧
      EndsWithStore (before ++ [stored path text answer w₁]) path text failure := by
  obtain ⟨w₀, hstore⟩ := h.ends_of_mem (List.mem_append_right _ (List.mem_singleton.2 rfl))
  obtain ⟨failure, w₂, rfl, hwrite⟩ := ends_persist hstore
  exact ⟨failure, rfl, before, w₂, w₁, rfl, hwrite⟩

end Ends

/-- What a report tells at the end of a write whose token has the given number. -/
structure Landed (entry : WriteEntry) (parent : Token) (number : Nat) (log : List (WriteEvent ε))
    (w : World ε) (r : WriteReport) (text : String) : Prop where
  begun : ∃ w₀, log.head? = some (begun parent number (number :: parent) w₀)
  stored : EndsWithStore log entry.path text none
  path : r.path = entry.path
  asGiven : r.formatted = false → text = entry.content
  byFormatter : r.formatted = true → text ≠ entry.content ∧
    ∃ name, r.formatter = some name ∧ FormattedBy entry (number :: parent) log name text
  named : r.formatter.isSome = r.formatted
  bytes : r.bytes = (Utf8.encode text).length
  stopped : w.isCancelled (number :: parent) = true →
    r.cancelled = !r.deadlineExpired ∧ r.diagnostics = none
  unstopped : w.isCancelled (number :: parent) = false →
    r.cancelled = false ∧ r.deadlineExpired = false
  byCaller : r.cancelled = true → w.isCancelled parent = true
  byDeadline : r.deadlineExpired = true → number ∈ w.cancelled

/-- What the outcome of a write tells, by its log and the world at its end. -/
def Told (entry : WriteEntry) (parent : Token) (log : List (WriteEvent ε)) (w : World ε) :
    Except Failure WriteReport → Prop
  | .error e => ∃ text f, e = .file entry.path f.message ∧
      EndsWithStore log entry.path text (some f)
  | .ok r => ∃ number text, Landed entry parent number log w r text

/-- The report of a pipeline as it is given out, by the world at the end. -/
def finalReport (w : World ε) (number : Nat) (parent : Token) (r : WriteReport) : WriteReport :=
  if w.isCancelled (number :: parent) then markStopped r (w.isCancelled parent) else r

/-- A run of a write is one of its pipeline, between a new token and a last look at it. -/
theorem concluded_of_runs {s : Session ε} {entry : WriteEntry} {timeout : Nat} {token : Token}
    {w w' : World ε} {log : List (WriteEvent ε)} {outcome : Except Failure WriteReport}
    (h : (s.writeScript entry timeout token).Runs (WriteAct.performed s) World.StaysCancelled w log
      w' outcome) :
    ∃ number w₁ acts result, log = begun token number (number :: token) w₁ :: acts ∧
      Concluded entry (number :: token) acts result ∧
      outcome = result.map (finalReport w' number token) := by
  obtain ⟨w₁, ⟨number, child⟩, rest, rfl, hchild, h⟩ := h.perform_bind_inv
  obtain rfl : child = number :: token := ends_childToken hchild
  obtain ⟨w₂, start, -, h⟩ := h.lift_bind_inv
  obtain ⟨w₃, -, -, h⟩ := h.lift_bind_inv
  obtain ⟨w₄, result, acts, after, hacts, hpipeline, h⟩ := h.bind_inv
  have hconcluded := hpipeline.always (always_runPipeline s entry timeout (number :: token))
  obtain ⟨w₅, -, -, h⟩ := h.lift_bind_inv
  -- What follows the pipeline is no act, so the log ends with that of the pipeline.
  suffices hafter : after = [] ∧ outcome = result.map (finalReport w' number token) by
    rw [hafter.1, List.append_nil] at hacts
    exact ⟨number, w₁, acts, result, hacts ▸ rfl, hconcluded, hafter.2⟩
  cases result with
  | error e =>
    obtain ⟨rfl, rfl, rfl⟩ := h.pure_inv
    exact ⟨rfl, rfl⟩
  | ok r =>
    obtain ⟨w₆, cancelled, hcancelled, h⟩ := h.lift_bind_inv
    obtain ⟨-, rfl⟩ := ends_isCancelled hcancelled
    split at h
    · next hstopped =>
      obtain ⟨w₇, byCaller, hbyCaller, h⟩ := h.lift_bind_inv
      obtain ⟨hstays, rfl⟩ := ends_isCancelled hbyCaller
      obtain ⟨rfl, rfl, rfl⟩ := h.pure_inv
      refine ⟨rfl, ?_⟩
      -- The caller's token is looked at later than the write's own, which is still cancelled then.
      rw [Except.map, finalReport, if_pos (hstays.isCancelled hstopped)]
    · next hrunning =>
      obtain ⟨rfl, rfl, rfl⟩ := h.pure_inv
      refine ⟨rfl, ?_⟩
      rw [Except.map, finalReport, if_neg hrunning]

theorem landed_finalReport {entry : WriteEntry} {parent : Token} {number : Nat}
    {log : List (WriteEvent ε)} {w : World ε} {r : WriteReport} {text : String}
    (hbegun : ∃ w₀, log.head? = some (begun parent number (number :: parent) w₀))
    (hstored : EndsWithStore log entry.path text none)
    (hr : Describes entry (number :: parent) log r text) (hbytes : r.bytes = text.utf8ByteSize) :
    Landed entry parent number log w (finalReport w number parent r) text := by
  have hlength := hbytes.trans (length_encode text).symm
  unfold finalReport
  split
  · next hstopped =>
    refine ⟨hbegun, hstored, hr.path, hr.asGiven, hr.byFormatter, hr.named, hlength,
      fun _ => ⟨?_, rfl⟩, fun hrunning => ?_, id, fun hexpired => ?_⟩
    · simp [markStopped]
    · rw [hstopped] at hrunning
      cases hrunning
    · have hparent : w.isCancelled parent = false := by simpa [markStopped] using hexpired
      rw [World.isCancelled_cons, hparent, Bool.or_false] at hstopped
      simpa using hstopped
  · next hrunning =>
    obtain ⟨hcancelled, hexpired⟩ := hr.running
    refine ⟨hbegun, hstored, hr.path, hr.asGiven, hr.byFormatter, hr.named, hlength,
      fun h => ?_, fun _ => hr.running, fun h => ?_, fun h => ?_⟩
    · exact absurd h hrunning
    · rw [hcancelled] at h
      cases h
    · rw [hexpired] at h
      cases h

theorem told_of_runs {s : Session ε} {entry : WriteEntry} {timeout : Nat} {token : Token}
    {w w' : World ε} {log : List (WriteEvent ε)} {outcome : Except Failure WriteReport}
    (h : (s.writeScript entry timeout token).Runs (WriteAct.performed s) World.StaysCancelled w log
      w' outcome) : Told entry token log w' outcome := by
  obtain ⟨number, w₁, acts, result, rfl, hconcluded, rfl⟩ := concluded_of_runs h
  cases result with
  | error e =>
    obtain ⟨text, before, w₂, rfl⟩ := hconcluded
    obtain ⟨failure, hanswer, hends⟩ :=
      endsWithStore_of_runs (begun token number (number :: token) w₁ :: before) h
    cases failure with
    | none => cases hanswer
    | some f => exact ⟨text, f, Except.error.inj hanswer, hends⟩
  | ok r =>
    obtain ⟨text, before, w₂, rfl, hdescribes, hbytes⟩ := hconcluded
    obtain ⟨failure, hanswer, hends⟩ :=
      endsWithStore_of_runs (begun token number (number :: token) w₁ :: before) h
    cases failure with
    | none =>
      exact ⟨number, text, landed_finalReport ⟨w₁, rfl⟩ hends
        (hdescribes.mono (List.subset_cons_self _ _)) hbytes⟩
    | some f => cases hanswer

/-- However a write ends, every log that it can have been run by bears its outcome out. -/
theorem writeEntry_lands {s : Session ε} {entry : WriteEntry} {timeout : Nat} {token : Token}
    {w w' : World ε} {outcome : Except Failure WriteReport}
    (h : (s.writeEntry entry timeout token).Ends World.StaysCancelled w w' outcome) :
    (∃ log, (s.writeScript entry timeout token).Runs (WriteAct.performed s) World.StaysCancelled w
      log w' outcome) ∧
    ∀ log, (s.writeScript entry timeout token).Runs (WriteAct.performed s) World.StaysCancelled w
      log w' outcome → Told entry token log w' outcome :=
  ⟨Script.runs_of_ends h, fun _ => told_of_runs⟩

/-- A session with one server, a linter that makes `text` of everything. -/
def formattingTo (text : String) : Session Unit where
  root := ⟨"/"⟩
  settings := Settings.default
  resolver := ⟨⟨"/"⟩, [("fmt", ⟨⟨"", [], "", ["c"], [], some "fmt", none, none⟩⟩)], ["fmt"]⟩
  connect := fun _ _ _ => return .error .cancelled
  linters := fun _ _ => ⟨true, fun _ _ => return .ok [], fun _ _ _ => return .ok text⟩

/-- Work in the background ends at once. -/
def endJobs (w : World Unit) : World Unit :=
  { w with jobs := [], finished := w.jobs ++ w.finished }

def unformattedEntry : WriteEntry := ⟨⟨"/a.c"⟩, "a ;", ⟨true, false⟩⟩

def formattedReport : WriteReport :=
  { WriteReport.start ⟨"/a.c"⟩ with bytes := 2, formatted := true, formatter := some "fmt" }

theorem writeEntry_lands_formattingTo :
    ∃ w', ((formattingTo "a;").writeEntry unformattedEntry 0 Token.never).Ends World.StaysCancelled
        (World.ofFiles FileTree.empty ()) w' (.ok formattedReport) ∧
      (∃ log, ((formattingTo "a;").writeScript unformattedEntry 0 Token.never).Runs
        (WriteAct.performed (formattingTo "a;")) World.StaysCancelled
        (World.ofFiles FileTree.empty ()) log w' (.ok formattedReport)) ∧
      ∀ log, ((formattingTo "a;").writeScript unformattedEntry 0 Token.never).Runs
        (WriteAct.performed (formattingTo "a;")) World.StaysCancelled
        (World.ofFiles FileTree.empty ()) log w' (.ok formattedReport) →
          Told unformattedEntry Token.never log w' (.ok formattedReport) := by
  have hplay : (Program.playOut endJobs 100 (World.ofFiles FileTree.empty ())
      ((formattingTo "a;").writeEntry unformattedEntry 0 Token.never)).map Prod.snd =
        some (.ok formattedReport) := by decide +kernel
  obtain ⟨⟨w', outcome⟩, hend, rfl⟩ := Option.map_eq_some_iff.1 hplay
  have hstays (w : World Unit) : w.StaysCancelled (endJobs w) := fun _ h => h
  have hends := Program.ends_of_playOut hstays hend
  exact ⟨w', hends, writeEntry_lands hends⟩

end Session

end LspClient
