import LspClient.CommandLine.Run
import LspClient.Proofs.Diagnostic.Reporting
import LspClient.Proofs.Write.Lands

/-!
# Exit codes

A command that reports on files exits with one exactly when there are errors in its reports. The
reports are made of what the servers said of the files (`Session.Reports`), in which an error counts
when it is what was said first, at its range with its message (`exits_with_first_errors`).
-/

namespace LspClient

open Program

variable {ε α : Type}

/-! ### Reports of a session -/

namespace Session

variable {s : Session ε} {path : Path} {timeout : Nat} {token : Token} {r : FileReport}
  {entry : WriteEntry} {report : WriteReport}

/-- The servers of the session that apply to the file, each asked for itself, can come to these
results, and this is the report made of them. -/
inductive Reports (s : Session ε) (path : Path) : FileReport.Results → FileReport → Prop
  | collected {token : Token} {reached : Except Failure Reached} {uri : String} {timeout : Nat}
      {floors : List (String × Nat)} {results : FileReport.Results}
      (hreach : (s.applicable path token).Gives reached)
      (hask : List.Forall₂ (fun target result =>
          (Diagnostics.ofTarget s.linters path uri timeout floors token target).Gives result)
        (reached.toOption.getD Reached.none).targets results) :
      Reports s path results ((FileReport.assemble path results).withConnectFailures
        (reached.toOption.getD Reached.none).failures)

theorem Reports.path_eq {results : FileReport.Results} (h : s.Reports path results r) :
    r.path = path := by
  cases h with
  | collected => rfl

theorem Reports.showsFirsts {results : FileReport.Results} (h : s.Reports path results r) :
    FileReport.ShowsFirsts results r := by
  cases h with
  | collected => exact FileReport.showsFirsts_assemble _ _ _

theorem assemble_nil (path : Path) : FileReport.assemble path [] = FileReport.noServers path := by
  simp [FileReport.assemble, FileReport.Results.answered, FileReport.Results.failed,
    Diagnostic.merge, Diagnostic.firsts, Diagnostic.firstsAfter, FileReport.noServers]

theorem assembled_of_collect {linters : Linters ε} {targets : List Applicable}
    {floors : List (String × Nat)}
    (h : (Diagnostics.collect linters path targets timeout floors token).Gives (.ok r)) :
    ∃ uri results, r = FileReport.assemble path results ∧ List.Forall₂ (fun target result =>
      (Diagnostics.ofTarget linters path uri timeout floors token target).Gives result)
        targets results := by
  unfold Diagnostics.collect at h
  split at h
  · next hempty =>
    obtain rfl := List.isEmpty_iff.1 hempty
    have hr := h.pure_inv
    cases hr
    exact ⟨"", [], (assemble_nil path).symm, .nil⟩
  split at h
  · have hr := h.pure_inv
    cases hr
  · next uri _ =>
    obtain ⟨results, hask, h⟩ := h.bind_inv
    obtain ⟨cancelled, -, h⟩ := h.bind_inv
    split at h
    · have hr := h.pure_inv
      cases hr
    · have hr := h.pure_inv
      cases hr
      exact ⟨uri, results, rfl, List.forall₂_map_left_iff.1 hask.all_inv⟩

theorem reports_of_diagnosePath (h : (s.diagnosePath path timeout token).Gives (.ok r)) :
    ∃ results, s.Reports path results r := by
  obtain ⟨reached, hreach, h⟩ := h.bind_inv
  cases reached with
  | error e =>
    have hr := h.pure_inv
    cases hr
  | ok reached =>
    obtain ⟨found, hcollect, h⟩ := h.bind_inv
    have hr := h.pure_inv
    cases found with
    | error e => cases hr
    | ok found =>
      cases hr
      obtain ⟨uri, results, rfl, hask⟩ := assembled_of_collect hcollect
      exact ⟨results, .collected hreach hask⟩

/-! ### Several files -/

theorem length_of_mapM {β : Type} {γ : Type 1} {f : γ → Work ε β} {l : List γ} {bs : List β}
    (h : (l.mapM f).Gives bs) : bs.length = l.length := by
  suffices hloop : ∀ acc, (List.mapM.loop f l acc).Gives bs → bs.length = acc.length + l.length by
    simpa using hloop [] h
  clear h
  induction l with
  | nil =>
    intro acc h
    have hbs := h.pure_inv
    simp [hbs]
  | cons a l ih =>
    intro acc h
    obtain ⟨b, -, h⟩ := h.bind_inv
    have hlength := ih _ h
    simp only [List.length_cons] at hlength ⊢
    omega

theorem gives_of_afterOthers {others : List Nat} {number : Nat} {job : Work ε α} {a : α}
    (h : (afterOthers others number job).Gives a) : job.Gives a := by
  obtain ⟨_, -, h⟩ := h.bind_inv
  obtain ⟨b, hjob, h⟩ := h.bind_inv
  obtain ⟨_, -, h⟩ := h.bind_inv
  obtain rfl := h.pure_inv
  exact hjob

theorem gives_of_windowed {width : Nat} {jobs : List (Work ε α)} {as : List α}
    (h : (windowed width jobs).Gives as) : List.Forall₂ Gives jobs as := by
  obtain ⟨numbers, hnumbers, h⟩ := h.bind_inv
  have hlength := length_of_mapM hnumbers
  have hall := h.all_inv
  rw [List.forall₂_iff_get] at hall ⊢
  obtain ⟨hall, hget⟩ := hall
  have hjobs : jobs.length = as.length := by
    rw [← hall]
    simp [hlength]
  refine ⟨hjobs, fun k hk hk' => ?_⟩
  have hgives := hget k (by simp [hlength, hk]) hk'
  simp only [List.get_eq_getElem, List.getElem_map, List.getElem_zipIdx, List.getElem_zip] at hgives
  exact gives_of_afterOthers hgives

theorem eq_map_ok_of_inOrder {results : List (Except Failure α)} {as : List α}
    (h : inOrder results = .ok as) : results = as.map .ok := by
  induction results generalizing as with
  | nil =>
    cases h
    rfl
  | cons result rest ih =>
    cases result with
    | error e => cases h
    | ok a =>
      rw [inOrder] at h
      cases hrest : inOrder rest with
      | error e =>
        rw [hrest] at h
        cases h
      | ok bs =>
        rw [hrest] at h
        cases h
        rw [ih hrest]
        rfl

/-- A report on a pattern is made of the reports on the files that are listed for it, in order. -/
theorem expands_of_diagnoseGlob {R : World ε → World ε → Prop} {w w' : World ε} {pattern : String}
    {max : Option Nat} {report : GlobReport}
    (h : (s.diagnoseGlob pattern max token).Ends R w w' (.ok report)) :
    ∃ w₁ w₀ expansion, R w w₁ ∧ R w₁.beginJob.2 w₀ ∧
      Glob.expand w₀.files s.root pattern (max.getD s.settings.maxGlobTargets) = .ok expansion ∧
      report.pattern = pattern ∧ report.total = expansion.total ∧
      report.ignoreRulesApplied = expansion.ignoreRulesApplied ∧
      List.Forall₂ (fun path r => ∃ results, s.Reports path results r)
        expansion.files report.files := by
  obtain ⟨w₂, expansion, hexpand, h⟩ := h.bind_inv
  obtain ⟨w₁, w₀, hbegun, hdone, hstep⟩ := ends_inBackground hexpand
  obtain ⟨hexpansion, -⟩ := Prod.mk.inj hstep
  cases expansion with
  | error e =>
    have hreport := h.pure_inv.2
    cases hreport
  | ok expansion =>
    obtain ⟨_, outcomes, hwindowed, h⟩ := h.bind_inv
    have hreport := h.pure_inv.2
    cases hinOrder : inOrder outcomes with
    | error e =>
      rw [hinOrder] at hreport
      cases hreport
    | ok files =>
      rw [hinOrder] at hreport
      cases hreport
      obtain rfl := eq_map_ok_of_inOrder hinOrder
      have hgives := List.forall₂_map_right_iff.1
        (List.forall₂_map_left_iff.1 (gives_of_windowed hwindowed.gives))
      exact ⟨w₁, w₀, expansion, hbegun, hdone, hexpansion, rfl, rfl, rfl,
        hgives.imp fun _ _ => reports_of_diagnosePath⟩

theorem reports_of_diagnoseGlob {pattern : String} {max : Option Nat} {report : GlobReport}
    (h : (s.diagnoseGlob pattern max token).Gives (.ok report)) :
    ∀ r ∈ report.files, ∃ results, s.Reports r.path results r := by
  obtain ⟨_, _, h⟩ := h
  obtain ⟨_, _, expansion, -, -, -, -, -, -, hreports⟩ := expands_of_diagnoseGlob h
  intro r hr
  obtain ⟨k, hk, rfl⟩ := List.getElem_of_mem hr
  obtain ⟨results, hreport⟩ := hreports.get (hreports.length_eq ▸ hk) hk
  exact ⟨results, hreport.path_eq.symm ▸ hreport⟩

/-! ### Writes -/

section Undiagnosed

variable (r : WriteReport) (connections : List Nat) (content : String)

theorem diagnostics_applyFormatting (server : String) (result : Json) :
    (applyFormatting server content result r).2.diagnostics = r.diagnostics := by
  unfold applyFormatting
  split
  · rfl
  · split
    · rfl
    · split
      · exact WriteReport.diagnostics_of_unwarned (r.unwarned_degrade _ _ _)
      · split <;> rfl

/-- A step that gives a text says nothing of diagnostics yet. -/
def Undiagnosed : Except Failure (String × WriteReport) → Prop
  | .error _ => True
  | .ok (_, r) => r.diagnostics = none

variable {r}

theorem undiagnosed_formatWithLinter {name : String} {kind : LinterKind}
    (hr : r.diagnostics = none) :
    (formatWithLinter name kind entry token r : WriteScript ε _).Always fun _ => Undiagnosed := by
  refine Script.Always.perform_bind fun stored w => ?_
  split
  · exact trivial
  refine Script.Always.work fun cancelled => ?_
  split
  · exact hr
  refine Script.Always.perform_bind fun answer w => ?_
  split
  · exact (WriteReport.diagnostics_of_unwarned (r.unwarned_degrade name "format" _)).trans hr
  · refine Script.Always.pure ?_
    unfold Undiagnosed
    dsimp only
    split <;> exact hr

theorem undiagnosed_formatWithServer (hr : r.diagnostics = none) :
    (formatWithServer connections path content token r : WriteScript ε _).Always
      fun _ out => out.2.diagnostics = none := by
  have hdegrade (c : Connection) (e : Failure) :
      (r.degrade c.name "format" e).diagnostics = r.diagnostics :=
    WriteReport.diagnostics_of_unwarned (r.unwarned_degrade c.name "format" e)
  refine Script.Always.work fun cancelled => ?_
  split
  · exact hr
  refine Script.Always.work fun formatter => ?_
  split
  · exact hr
  refine Script.Always.work fun connection => ?_
  split
  · exact (hdegrade connection _).trans hr
  refine Script.Always.perform_bind fun answer w => ?_
  split
  · exact (hdegrade connection _).trans hr
  · exact (diagnostics_applyFormatting r content connection.name _).trans hr

theorem undiagnosed_prepare (targets : List Applicable) (hr : r.diagnostics = none) :
    (s.prepare entry targets token r).Always fun _ => Undiagnosed := by
  unfold prepare
  dsimp only
  split
  · refine (undiagnosed_formatWithLinter hr).bind fun _ out hout => ?_
    split
    · exact trivial
    · refine Script.Always.lift_bind (results_syncAll _ _ _ _ _) fun r' hr' => ?_
      exact Script.Always.pure ((WriteReport.diagnostics_of_unwarned hr').trans hout)
  · refine Script.Always.lift_bind (results_syncAll _ _ _ _ r) fun r' hr' => ?_
    have hr := (WriteReport.diagnostics_of_unwarned hr').trans hr
    split
    · exact Script.Always.pure hr
    · refine (undiagnosed_formatWithServer _ _ hr).bind fun _ out hout => ?_
      split
      · exact Script.Always.pure hout
      · refine Script.Always.lift_bind (results_syncAll _ _ _ _ _) fun r'' hr'' => ?_
        exact Script.Always.pure ((WriteReport.diagnostics_of_unwarned hr'').trans hout)

end Undiagnosed

theorem reports_of_conclude {floors : List (String × Nat)} {r₀ : WriteReport}
    {reached : Except Failure Reached} (hreach : (s.applicable entry.path token).Gives reached)
    (hr₀ : r₀.diagnostics = none)
    (h : (s.conclude entry (reached.toOption.getD Reached.none) floors timeout token r₀).Gives
      report) (hr : report.diagnostics = some r) : ∃ results, s.Reports entry.path results r := by
  obtain ⟨cancelled, -, h⟩ := h.bind_inv
  split at h
  · obtain ⟨found, hcollect, h⟩ := h.bind_inv
    cases found with
    | ok found =>
      obtain rfl := h.pure_inv
      cases hr
      obtain ⟨uri, results, rfl, hask⟩ := assembled_of_collect hcollect
      exact ⟨results, .collected hreach hask⟩
    | error e =>
      dsimp only at h
      split at h
      · obtain rfl := h.pure_inv
        rw [hr₀] at hr
        cases hr
      · obtain rfl := h.pure_inv
        rw [show (r₀.warn _).diagnostics = r₀.diagnostics from rfl, hr₀] at hr
        cases hr
  · obtain rfl := h.pure_inv
    have hsame := WriteReport.diagnostics_of_unwarned (r₀.unwarned_foldl_warn
      (fun f : ServerFailure => s!"{f.server}: {f.message}")
      (reached.toOption.getD Reached.none).failures)
    rw [hsame, hr₀] at hr
    cases hr

variable {R : World ε → World ε → Prop} {w w' : World ε} {log : List (WriteEvent ε)}

theorem reports_of_runPipeline
    (h : (s.runPipeline entry timeout token).Runs (WriteAct.performed s) R w log w' (.ok report))
    (hr : report.diagnostics = some r) : ∃ results, s.Reports entry.path results r := by
  obtain ⟨_, reached, hreach, h⟩ := h.lift_bind_inv
  obtain ⟨_, floors, -, h⟩ := h.lift_bind_inv
  obtain ⟨_, prepared, _, _, -, hprepare, h⟩ := h.bind_inv
  have hprepared : Undiagnosed prepared := hprepare.always (undiagnosed_prepare _ rfl)
  match prepared with
  | .error e =>
    obtain ⟨-, -, hreport⟩ := h.pure_inv
    cases hreport
  | .ok (content, r₀) =>
    obtain ⟨_, stored, _, -, -, h⟩ := h.perform_bind_inv
    change Except Failure Unit at stored
    match stored with
    | .error e =>
      obtain ⟨-, -, hreport⟩ := h.pure_inv
      cases hreport
    | .ok () =>
      obtain ⟨_, saved, hsave, h⟩ := h.lift_bind_inv
      obtain ⟨_, concluded, hconclude, h⟩ := h.lift_bind_inv
      obtain ⟨-, -, hreport⟩ := h.pure_inv
      cases hreport
      have hsaved := WriteReport.diagnostics_of_unwarned ((results_saveAll _ _ _ _).of_ends hsave)
      exact reports_of_conclude hreach.gives (hsaved.trans hprepared) hconclude.gives hr

theorem reports_of_writeEntry (h : (s.writeEntry entry timeout token).Gives (.ok report))
    (hr : report.diagnostics = some r) : ∃ results, s.Reports entry.path results r := by
  obtain ⟨_, _, h⟩ := h
  obtain ⟨log, h⟩ := Script.runs_of_ends h
  obtain ⟨_, ⟨number, child⟩, _, -, -, h⟩ := h.perform_bind_inv
  obtain ⟨_, now, -, h⟩ := h.lift_bind_inv
  obtain ⟨_, _, -, h⟩ := h.lift_bind_inv
  obtain ⟨_, outcome, _, _, -, hpipeline, h⟩ := h.bind_inv
  obtain ⟨_, _, -, h⟩ := h.lift_bind_inv
  cases outcome with
  | error e =>
    obtain ⟨-, -, hreport⟩ := h.pure_inv
    cases hreport
  | ok report' =>
    obtain ⟨_, stopped, -, h⟩ := h.lift_bind_inv
    split at h
    · obtain ⟨_, byCaller, -, h⟩ := h.lift_bind_inv
      obtain ⟨-, -, hreport⟩ := h.pure_inv
      cases hreport
      cases hr
    · obtain ⟨-, -, hreport⟩ := h.pure_inv
      cases hreport
      exact reports_of_runPipeline hpipeline hr

end Session

/-! ### Commands -/

namespace CommandLine

open FileReport (Results ShowsFirsts)

variable {s : Session ε} {finished : Finished}

/-- A command that reports on files exits with one if an error is what was said first, at its range
with its message, of one of them; else with zero. -/
def ExitsFor (s : Session ε) (files : List FileReport) (finished : Finished) : Prop :=
  ∃ told, List.Forall₂ (fun results r => s.Reports r.path results r) told files ∧
    finished.code ≤ 1 ∧ (finished.code = 1 ↔ ∃ results ∈ told, results.HasFirstError)

theorem exitsFor_reported {files : List FileReport} (output : String)
    (h : ∀ r ∈ files, ∃ results, s.Reports r.path results r) :
    ExitsFor s files (.reported output (files.map FileReport.errorCount).sum) := by
  have hcode (errors : Nat) : (Finished.reported output errors).code ≤ 1 ∧
      ((Finished.reported output errors).code = 1 ↔ 0 < errors) := by
    unfold Finished.reported
    split <;> simp <;> omega
  suffices htold : ∃ told, List.Forall₂ (fun results r => s.Reports r.path results r) told files ∧
      (0 < (files.map FileReport.errorCount).sum ↔ ∃ results ∈ told, results.HasFirstError) by
    obtain ⟨told, hreports, herrors⟩ := htold
    exact ⟨told, hreports, (hcode _).1, (hcode _).2.trans herrors⟩
  induction files with
  | nil => exact ⟨[], .nil, by simp⟩
  | cons r files ih =>
    obtain ⟨results, hr⟩ := h r (List.mem_cons_self ..)
    obtain ⟨told, hreports, herrors⟩ := ih fun r hr => h r (List.mem_cons_of_mem _ hr)
    refine ⟨results :: told, .cons hr hreports, ?_⟩
    rw [List.map_cons, List.sum_cons, Nat.add_pos_iff_pos_or_pos, herrors,
      hr.showsFirsts.errorCount_pos, List.exists_mem_cons_iff]

theorem errorCount_eq_sum (report : GlobReport) :
    report.errorCount = (report.files.map FileReport.errorCount).sum := by
  have hfold (n : Nat) : report.files.foldl (fun n f => n + f.errorCount) n =
      n + (report.files.map FileReport.errorCount).sum := by
    induction report.files generalizing n with
    | nil => rfl
    | cons r files ih => rw [List.foldl_cons, ih, List.map_cons, List.sum_cons, Nat.add_assoc]
  exact (hfold 0).trans (Nat.zero_add _)

theorem exitsFor_diagnose {pattern : String} {max : Option Nat}
    (h : (diagnose s pattern max).Gives finished) : (∃ e, finished = .failed e) ∨
      ∃ report : GlobReport, finished.output = report.render ∧ ExitsFor s report.files finished := by
  obtain ⟨outcome, hglob, h⟩ := h.bind_inv
  cases outcome with
  | error e => exact .inl ⟨_, h.pure_inv⟩
  | ok report =>
    obtain rfl := h.pure_inv
    refine .inr ⟨report, rfl, ?_⟩
    rw [errorCount_eq_sum]
    exact exitsFor_reported _ (Session.reports_of_diagnoseGlob hglob)

theorem exitsFor_write {path : Path} {input : Option Path} {format diagnostics : Bool}
    {stdin : List UInt8} (h : (write s path input format diagnostics stdin).Gives finished) :
    (∃ e, finished = .failed e) ∨ ∃ report : WriteReport, finished.output = report.render ∧
      ExitsFor s report.diagnostics.toList finished := by
  obtain ⟨content, -, h⟩ := h.bind_inv
  cases content with
  | error e => exact .inl ⟨_, h.pure_inv⟩
  | ok content =>
    obtain ⟨outcome, hwrite, h⟩ := h.bind_inv
    cases outcome with
    | error e => exact .inl ⟨_, h.pure_inv⟩
    | ok outcome =>
      obtain rfl := h.pure_inv
      obtain ⟨outcome', hentry, houtcome⟩ := hwrite.bind_inv
      have heq := houtcome.pure_inv
      cases outcome' with
      | error e => cases heq
      | ok report =>
        cases heq
        refine .inr ⟨report, rfl, ?_⟩
        -- without a report there is nothing that could fail the run
        cases hr : report.diagnostics with
        | none =>
          have hexits : ExitsFor s [] _ := exitsFor_reported report.render nofun
          simpa [writeOutcome, hr] using hexits
        | some r =>
          obtain ⟨results, hreports⟩ := Session.reports_of_writeEntry hentry hr
          have hexits : ExitsFor s [r] _ := exitsFor_reported report.render fun r' hr' => by
            obtain rfl := List.mem_singleton.1 hr'
            exact ⟨results, hreports.path_eq.symm ▸ hreports⟩
          simpa [writeOutcome, hr] using hexits

def misspelt (severity : Severity) (source : String) : Diagnostic :=
  ⟨severity, "misspelt", ⟨⟨0, 0⟩, ⟨0, 1⟩⟩, source, none, []⟩

/-- Two servers say the same of a file, and grade it each in its own way. -/
def graded (severity severity' : Severity) : Results :=
  [("a", .ok [misspelt severity "a"]), ("b", .ok [misspelt severity' "b"])]

def linterEntry (name : String) : String × ServerConfig :=
  (name, ⟨"", [], "", ["c"], [], some name, none, none⟩)

/-- A session with two linters, which say the same of every file. -/
def grading (severity severity' : Severity) : Session Unit where
  root := ⟨"/"⟩
  settings := Settings.default
  resolver := ⟨⟨"/"⟩, [linterEntry "a", linterEntry "b"], ["a", "b"]⟩
  connect := fun _ _ _ => return .error .cancelled
  linters := fun name _ =>
    { canFormat := false
      lint := fun _ _ => return .ok [misspelt (if name = "a" then severity else severity') name]
      format := fun _ content _ => return .ok content }

def oneFile : FileTree :=
  { FileTree.empty with entries := (["a.c"], .file [] 0o644) :: FileTree.empty.entries }

theorem gives_of_playOut {p : Work Unit Finished} (h : (Program.playOut Session.endJobs 100
    (World.ofFiles oneFile ()) p).map (·.2.errors) = some "") :
    ∃ finished, p.Gives finished ∧ finished.errors = "" := by
  obtain ⟨⟨w, finished⟩, hend, herrors⟩ := Option.map_eq_some_iff.1 h
  have hends := Program.ends_of_playOut (R := fun _ _ => True) (fun _ => trivial) hend
  exact ⟨finished, hends.gives, herrors⟩

end CommandLine

end LspClient
