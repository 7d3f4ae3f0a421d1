import LspClient.Proofs.Program.Ends
import LspClient.Write.Pipeline

/-!
# Reports on what is to be written

A pipeline hands on a text and a report from step to step. `Describes` ties them together: the text
is the one that was given, or another one, which came from the formatter that the report names, by
the log of what was done so far. Every step keeps it, whatever servers and linters answer
(`always_prepare`), up to the last act, which is to store the text (`always_runPipeline`).

What else the steps add to a report are warnings, which `unwarned` leaves out, and at the end
diagnostics, which `bare` leaves out as well.
-/

namespace LspClient

variable {ε : Type}

/-! ### Logs of writes -/

abbrev WriteEvent (ε : Type) := Script.Event (World ε) WriteAct WriteAct.Answer

namespace WriteEvent

def begun (parent : Token) (number : Nat) (token : Token) (w : World ε) : WriteEvent ε :=
  ⟨.begin parent, (number, token), w⟩

def stored (path : Path) (text : String) (answer : Except Failure Unit) (w : World ε) :
    WriteEvent ε :=
  ⟨.store path text, answer, w⟩

def linted (name : String) (kind : LinterKind) (path : Path) (content : String) (token : Token)
    (answer : Except Failure String) (w : World ε) : WriteEvent ε :=
  ⟨.lint name kind path content token, answer, w⟩

def asked (server : String) (i : Nat) (params : Json) (token : Token)
    (answer : Except Failure Json) (w : World ε) : WriteEvent ε :=
  ⟨.ask server i params token, answer, w⟩

end WriteEvent

open WriteEvent

/-- The formatter `name` made `text` of the content that is to be written. -/
inductive FormattedBy (entry : WriteEntry) (token : Token) (log : List (WriteEvent ε)) :
    String → String → Prop
  | linter {name text : String} {kind : LinterKind} {w : World ε}
      (h : linted name kind entry.path entry.content token (.ok text) w ∈ log) :
      FormattedBy entry token log name text
  | server {name text uri : String} {i : Nat} {result : Json} {edits : List TextEdit}
      {w : World ε} (huri : Uri.ofPath entry.path = .ok uri)
      (h : asked name i (Params.formatting uri entry.content) token (.ok result) w ∈ log)
      (hedits : TextEdit.decodeList result = .ok edits)
      (htext : applyEdits entry.content edits = .ok text) :
      FormattedBy entry token log name text

theorem FormattedBy.mono {entry : WriteEntry} {token : Token} {log log' : List (WriteEvent ε)}
    {name text : String} (h : FormattedBy entry token log name text) (hlog : log ⊆ log') :
    FormattedBy entry token log' name text := by
  cases h with
  | linter h => exact .linter (hlog h)
  | server huri h hedits htext => exact .server huri (hlog h) hedits htext

/-! ### What the steps add to a report -/

namespace WriteReport

variable {r r' : WriteReport}

def unwarned (r : WriteReport) : WriteReport := { r with warnings := [] }

def bare (r : WriteReport) : WriteReport := { r with warnings := [], diagnostics := none }

theorem bare_of_unwarned (h : r'.unwarned = r.unwarned) : r'.bare = r.bare :=
  (congrArg (fun r : WriteReport => { r with diagnostics := none }) h :)

theorem diagnostics_of_unwarned (h : r'.unwarned = r.unwarned) : r'.diagnostics = r.diagnostics :=
  (congrArg WriteReport.diagnostics h :)

theorem unwarned_degrade (r : WriteReport) (server step : String) (e : Failure) :
    (r.degrade server step e).unwarned = r.unwarned := by
  unfold degrade
  split <;> rfl

theorem unwarned_degradeAll (r : WriteReport) (step : String)
    (results : List (String × Except Failure SyncOutcome)) :
    (r.degradeAll step results).unwarned = r.unwarned := by
  induction results generalizing r with
  | nil => rfl
  | cons result rest ih =>
    obtain ⟨server, outcome⟩ := result
    cases outcome with
    | ok => exact ih r
    | error e => exact (ih _).trans (unwarned_degrade r server step e)

theorem unwarned_foldl_warn {α : Type} (r : WriteReport) (warning : α → String) (l : List α) :
    (l.foldl (fun r a => r.warn (warning a)) r).unwarned = r.unwarned := by
  induction l generalizing r with
  | nil => rfl
  | cons a l ih => exact ih _

end WriteReport

namespace Session

theorem results_syncAll (connections : List Nat) (path : Path) (content : String) (token : Token)
    (r : WriteReport) : (syncAll connections path content token r : Work ε _).Results
      fun r' => r'.unwarned = r.unwarned := by
  refine Program.Results.then fun cancelled => ?_
  split
  · exact rfl
  · exact Program.Results.then fun _ => .pure (r.unwarned_degradeAll _ _)

theorem results_saveAll (connections : List Nat) (path : Path) (token : Token) (r : WriteReport) :
    (saveAll connections path token r : Work ε _).Results
      fun r' => r'.unwarned = r.unwarned := by
  refine Program.Results.then fun cancelled => ?_
  split
  · exact rfl
  · exact Program.Results.then fun _ => .pure (r.unwarned_degradeAll _ _)

theorem results_conclude (s : Session ε) (entry : WriteEntry) (reached : Reached)
    (floors : List (String × Nat)) (timeout : Nat) (token : Token) (r : WriteReport) :
    (s.conclude entry reached floors timeout token r).Results fun r' => r'.bare = r.bare := by
  refine Program.Results.then fun cancelled => ?_
  split
  · refine Program.Results.then fun found => ?_
    split
    · exact rfl
    · split <;> exact rfl
  · exact WriteReport.bare_of_unwarned
      (r.unwarned_foldl_warn (fun f : ServerFailure => s!"{f.server}: {f.message}") reached.failures)

end Session

/-! ### What a report says of a text -/

structure Describes (entry : WriteEntry) (token : Token) (log : List (WriteEvent ε))
    (r : WriteReport) (text : String) : Prop where
  path : r.path = entry.path
  asGiven : r.formatted = false → text = entry.content
  byFormatter : r.formatted = true → text ≠ entry.content ∧
    ∃ name, r.formatter = some name ∧ FormattedBy entry token log name text
  named : r.formatter.isSome = r.formatted
  running : r.cancelled = false ∧ r.deadlineExpired = false

section Describes

variable {entry : WriteEntry} {token : Token} {log log' : List (WriteEvent ε)}
  {r r' : WriteReport} {text : String}

theorem describes_start : Describes entry token log (WriteReport.start entry.path) entry.content :=
  ⟨rfl, fun _ => rfl, nofun, rfl, rfl, rfl⟩

theorem Describes.mono (h : Describes entry token log r text) (hlog : log ⊆ log') :
    Describes entry token log' r text := by
  refine { h with byFormatter := fun hr => ?_ }
  obtain ⟨hne, name, hname, hby⟩ := h.byFormatter hr
  exact ⟨hne, name, hname, hby.mono hlog⟩

theorem Describes.of_bare (h : Describes entry token log r text) (hr : r'.bare = r.bare) :
    Describes entry token log r' text := by
  have hpath : r'.path = r.path := (congrArg WriteReport.path hr :)
  have hformatted : r'.formatted = r.formatted := (congrArg WriteReport.formatted hr :)
  have hformatter : r'.formatter = r.formatter := (congrArg WriteReport.formatter hr :)
  have hcancelled : r'.cancelled = r.cancelled := (congrArg WriteReport.cancelled hr :)
  have hexpired : r'.deadlineExpired = r.deadlineExpired :=
    (congrArg WriteReport.deadlineExpired hr :)
  constructor
  · rw [hpath]
    exact h.path
  · rw [hformatted]
    exact h.asGiven
  · rw [hformatted, hformatter]
    exact h.byFormatter
  · rw [hformatted, hformatter]
    exact h.named
  · rw [hcancelled, hexpired]
    exact h.running

theorem Describes.degrade (h : Describes entry token log r text) (server step : String)
    (e : Failure) : Describes entry token log (r.degrade server step e) text :=
  h.of_bare (WriteReport.bare_of_unwarned (r.unwarned_degrade server step e))

theorem Describes.markFormatted {name : String} (h : Describes entry token log r entry.content)
    (hne : text ≠ entry.content) (hby : FormattedBy entry token log name text) :
    Describes entry token log (r.markFormatted name) text :=
  ⟨h.path, nofun, fun _ => ⟨hne, name, rfl, hby⟩, rfl, h.running⟩

end Describes

/-! ### What the steps make of a text -/

namespace Session

variable {entry : WriteEntry} {token : Token} {log : List (WriteEvent ε)} {r : WriteReport}

theorem describes_applyFormatting {server uri : String} {i : Nat} {result : Json} {w : World ε}
    (hr : Describes entry token log r entry.content) (huri : Uri.ofPath entry.path = .ok uri)
    (h : asked server i (Params.formatting uri entry.content) token (.ok result) w ∈ log) :
    Describes entry token log (applyFormatting server entry.content result r).2
      ((applyFormatting server entry.content result r).1.getD entry.content) := by
  unfold applyFormatting
  -- an answer that is no list of edits, or cannot be applied, leaves the text as it was
  split
  · exact hr
  · split
    · exact hr.of_bare rfl
    · next edits hedits =>
      split
      · next overlap _ =>
        exact hr.degrade server "format"
          (.protocol Method.formatting ResponseError.invalidParamsCode overlap.message)
      · next formatted htext =>
        split
        · exact hr
        · next hne => exact hr.markFormatted hne (.server huri h hedits htext)

theorem always_formatWithServer (connections : List Nat)
    (hr : Describes entry token ([] : List (WriteEvent ε)) r entry.content) :
    (formatWithServer connections entry.path entry.content token r : WriteScript ε _).Always
      fun log out => Describes entry token log out.2 (out.1.getD entry.content) := by
  unfold formatWithServer
  refine Script.Always.work fun cancelled => ?_
  split
  · exact hr
  refine Script.Always.work fun formatter => ?_
  split
  · exact hr
  · next i =>
    refine Script.Always.work fun connection => ?_
    split
    · exact hr.degrade connection.name "format" _
    · next uri huri =>
      refine Script.Always.perform_bind fun answer w => ?_
      split
      · exact (hr.degrade connection.name "format" _).mono (List.nil_subset _)
      · exact describes_applyFormatting (hr.mono (List.nil_subset _)) huri
          (List.mem_singleton.2 rfl)

/-- A step that gives a text has a report that describes it; one that fails, at a store. -/
def Prepared (entry : WriteEntry) (token : Token) (log : List (WriteEvent ε)) :
    Except Failure (String × WriteReport) → Prop
  | .error e => ∃ w, log = [stored entry.path entry.content (.error e) w]
  | .ok (text, r) => Describes entry token log r text

theorem always_formatWithLinter (name : String) (kind : LinterKind)
    (hr : Describes entry token ([] : List (WriteEvent ε)) r entry.content) :
    (formatWithLinter name kind entry token r : WriteScript ε _).Always
      (Prepared entry token) := by
  unfold formatWithLinter
  refine Script.Always.perform_bind fun answer w => ?_
  split
  · exact ⟨w, rfl⟩
  refine Script.Always.work fun cancelled => ?_
  split
  · exact hr.mono (List.nil_subset _)
  refine Script.Always.perform_bind fun answer w' => ?_
  split
  · exact (hr.degrade name "format" _).mono (List.nil_subset _)
  · next formatted =>
    have hby : linted name kind entry.path entry.content token (.ok formatted) w' ∈
        [stored entry.path entry.content (.ok ()) w,
          linted name kind entry.path entry.content token (.ok formatted) w'] :=
      List.mem_cons_of_mem _ (List.mem_singleton.2 rfl)
    change Describes _ _ _ (if _ then _ else _) formatted
    split
    · next heq =>
      subst heq
      exact hr.mono (List.nil_subset _)
    · next hne => exact (hr.mono (List.nil_subset _)).markFormatted hne (.linter hby)

theorem always_prepare (s : Session ε) (targets : List Applicable)
    (hr : Describes entry token ([] : List (WriteEvent ε)) r entry.content) :
    (s.prepare entry targets token r).Always (Prepared entry token) := by
  unfold prepare
  dsimp only
  split
  · next name kind _ =>
    refine (always_formatWithLinter name kind hr).bind fun log out hout => ?_
    split
    · exact Script.Always.pure (by rwa [List.append_nil])
    · next text formatted =>
      refine Script.Always.lift_bind (results_syncAll _ _ _ _ formatted) fun synced hsynced => ?_
      have hdescribes : Describes entry token log formatted text := hout
      refine Script.Always.pure ?_
      rw [List.append_nil]
      exact hdescribes.of_bare (WriteReport.bare_of_unwarned hsynced)
  · refine Script.Always.lift_bind (results_syncAll _ _ _ _ r) fun sent hsent => ?_
    have hr := hr.of_bare (WriteReport.bare_of_unwarned hsent)
    split
    · exact hr
    · refine (always_formatWithServer _ hr).bind fun log out hout => ?_
      split
      · next answered => exact Script.Always.pure (by rw [List.append_nil]; exact hout)
      · next text formatted =>
        refine Script.Always.lift_bind (results_syncAll _ _ _ _ formatted) fun synced hsynced => ?_
        have hdescribes : Describes entry token log formatted text := hout
        refine Script.Always.pure ?_
        rw [List.append_nil]
        exact hdescribes.of_bare (WriteReport.bare_of_unwarned hsynced)

/-- What a pipeline comes to: its last act is to store the text that the report describes. -/
def Concluded (entry : WriteEntry) (token : Token) (log : List (WriteEvent ε)) :
    Except Failure WriteReport → Prop
  | .error e => ∃ text before w, log = before ++ [stored entry.path text (.error e) w]
  | .ok r => ∃ text before w, log = before ++ [stored entry.path text (.ok ()) w] ∧
      Describes entry token log r text ∧ r.bytes = text.utf8ByteSize

theorem always_runPipeline (s : Session ε) (entry : WriteEntry) (timeout : Nat) (token : Token) :
    (s.runPipeline entry timeout token).Always (Concluded entry token) := by
  unfold runPipeline
  refine Script.Always.work fun reached => ?_
  refine Script.Always.work fun floors => ?_
  refine (always_prepare s _ describes_start).bind fun log out hout => ?_
  split
  · next e =>
    obtain ⟨w, rfl⟩ := hout
    exact Script.Always.pure ⟨entry.content, [], w, rfl⟩
  · next text r =>
    refine Script.Always.perform_bind fun answer w => ?_
    split
    · exact Script.Always.pure ⟨text, log, w, rfl⟩
    · have hdescribes : Describes entry token log r text := hout
      have hcounted : Describes entry token log { r with bytes := text.utf8ByteSize } text :=
        ⟨hdescribes.path, hdescribes.asGiven, hdescribes.byFormatter, hdescribes.named,
          hdescribes.running⟩
      refine Script.Always.lift_bind (results_saveAll _ _ _ _) fun saved hsaved => ?_
      refine Script.Always.lift_bind (results_conclude s _ _ _ _ _ saved) fun told htold => ?_
      have hbare := htold.trans (WriteReport.bare_of_unwarned hsaved)
      refine Script.Always.pure ⟨text, log, w, rfl, ?_, (congrArg WriteReport.bytes hbare :)⟩
      exact (hcounted.mono (List.subset_append_left _ _)).of_bare hbare

end Session

end LspClient
