import LspClient.Proofs.Program.Amid
import LspClient.Proofs.Document.Courses
import LspClient.Proofs.Write.Lands
import LspClient.Proofs.Write.Parts

/-!
# Clean reports

A step that does not work leaves a warning, unless it was cancelled; and a write that is cancelled is
reported to be. So where a report says neither, every step was taken, and has worked: the steps add
warnings and take none away (`step_quiet`), a step is left out only where the write was seen to be
cancelled (`unlessStopped`), and a write that has come to a clean end was not (`finishWrite_clean`).
The path of such a write has a URI, if there are servers to be told (`CarriesOut.stopped`).
-/

namespace LspClient

namespace WriteReport

variable {r : WriteReport} {server step : String} {e : Failure}

theorem degrade_quiet (h : (r.degrade server step e).warnings = []) :
    r.warnings = [] ∧ e.isCancelled = true := by
  unfold degrade at h
  split at h
  · next hcancelled => exact ⟨h, hcancelled⟩
  · simp at h

theorem warn_ne_nil {warning : String} : (r.warn warning).warnings ≠ [] := by simp [warn]

/-- Where nothing is noted of a round, all that failed was cancelled. -/
theorem degradeAll_quiet {results : List (String × Except Failure SyncOutcome)}
    (h : (r.degradeAll step results).warnings = []) :
    r.warnings = [] ∧ ∀ name e, (name, .error e) ∈ results → e.isCancelled = true := by
  induction results generalizing r with
  | nil => exact ⟨h, nofun⟩
  | cons result results ih =>
    obtain ⟨server, outcome⟩ := result
    cases outcome with
    | ok outcome =>
      obtain ⟨hr, hresults⟩ := ih h
      exact ⟨hr, fun name e hmem => hresults name e (by simpa using hmem)⟩
    | error e =>
      obtain ⟨hr, hresults⟩ := ih h
      obtain ⟨hr, he⟩ := degrade_quiet hr
      refine ⟨hr, fun name e' hmem => ?_⟩
      rcases List.mem_cons.1 hmem with heq | hmem
      · cases heq
        exact he
      · exact hresults name e' hmem

theorem foldl_warn_quiet {β : Type} {warning : β → String} {l : List β}
    (h : (l.foldl (fun r x => r.warn (warning x)) r).warnings = []) : r.warnings = [] := by
  induction l generalizing r with
  | nil => exact h
  | cons x l ih => exact absurd (ih h) warn_ne_nil

end WriteReport

namespace Session

open Program Crew Document

variable {ε α : Type} {s : Session ε} {i : Nat} {content step : String} {path : Path}
  {token : Token} {moments first second : List (Moment (World ε))}
  {c c' : Crew (World ε) Errand (Option Outcome)} {r r' : WriteReport} {connections : List Nat}
  {entry : WriteEntry} {timeout : Nat} {reached : Reached} {floors : List (String × Nat)}
  {w : World ε} {s₀ s₁ : World ε}

/-! ### Warnings -/

theorem applyFormatting_quiet {server : String} {result : Json}
    (h : (applyFormatting server content result r).2.warnings = []) : r.warnings = [] := by
  unfold applyFormatting at h
  split at h
  · exact h
  · split at h
    · exact absurd h WriteReport.warn_ne_nil
    · split at h
      · exact (WriteReport.degrade_quiet h).1
      · split at h <;> exact h

theorem step_quiet {p : Work ε (List (String × Except Failure SyncOutcome))} :
    (do if ← Work.isCancelled token then return r
        else return r.degradeAll step (← p) : Work ε WriteReport).Results
      fun r' => r'.warnings = [] → r.warnings = [] := by
  refine Results.then fun cancelled => ?_
  cases cancelled with
  | true => exact Results.pure id
  | false => exact Results.then fun results => Results.pure fun h =>
      (WriteReport.degradeAll_quiet h).1

theorem formatWithServer_quiet :
    ((formatWithServer connections path content token r).run (WriteAct.performed s)).Results
      fun result => result.2.warnings = [] → r.warnings = [] := by
  refine Results.then fun cancelled => ?_
  cases cancelled with
  | true => exact Results.pure id
  | false =>
    refine Results.then fun formatter => ?_
    cases formatter with
    | none => exact Results.pure id
    | some j =>
      refine Results.then fun conn => ?_
      dsimp only
      split
      · exact Results.pure fun h => (WriteReport.degrade_quiet h).1
      · refine Results.then fun answer => ?_
        cases answer with
        | error e => exact Results.pure fun h => (WriteReport.degrade_quiet h).1
        | ok result => exact Results.pure applyFormatting_quiet

theorem conclude_quiet : (s.conclude entry reached floors timeout token r).Results
    fun r' => r'.warnings = [] → r.warnings = [] := by
  refine Results.then fun cancelled => ?_
  change (if _ then _ else _ : Work ε WriteReport).Results _
  split
  · refine Results.then fun found => ?_
    cases found with
    | ok found => exact Results.pure id
    | error e =>
      dsimp only
      split
      · exact Results.pure id
      · exact Results.pure fun h => absurd h WriteReport.warn_ne_nil
  · exact Results.pure WriteReport.foldl_warn_quiet

/-! ### Cancellation -/

/-- It was seen that the write was cancelled. -/
def SeenStopped (token : Token) (moments : List (Moment (World ε))) : Prop :=
  ∃ w, Seen moments w ∧ w.isCancelled token = true

theorem SeenStopped.left (h : SeenStopped token first) : SeenStopped token (first ++ second) := by
  obtain ⟨w, hw, hstopped⟩ := h
  exact ⟨w, hw.left, hstopped⟩

theorem SeenStopped.right (h : SeenStopped token second) : SeenStopped token (first ++ second) := by
  obtain ⟨w, hw, hstopped⟩ := h
  exact ⟨w, hw.right, hstopped⟩

/-- A cancellation that was seen is seen by all who look later. -/
theorem SeenStopped.isCancelled (h : SeenStopped token first)
    (hleads : Leads s₀ (first ++ second) s₁)
    (hstays : ∀ m ∈ first ++ second, m.before.StaysCancelled m.after)
    (hw : Seen second w) : w.isCancelled token = true := by
  obtain ⟨_, ⟨m, hm, rfl⟩, hstopped⟩ := h
  obtain ⟨m', hm', rfl⟩ := hw
  obtain ⟨front, back, rfl⟩ := List.append_of_mem hm
  rw [List.append_assoc, List.cons_append] at hleads hstays
  have hafter := (hstays m (by simp)).isCancelled hstopped
  obtain ⟨-, hback⟩ := hleads.split
  obtain ⟨-, hstate⟩ := hback.chain World.StaysCancelled.refl
    (fun _ _ _ => World.StaysCancelled.trans) fun m hm =>
      hstays m (List.mem_append_right _ (List.mem_cons_of_mem _ hm))
  exact (hstate m' (List.mem_append_right _ hm')).1.isCancelled hafter

/-- Before a step that may be left out it is seen whether the write was cancelled. -/
theorem unlessStopped {p q : Work ε α} {x : α}
    (run : Amid (errandRules ε i) c (do if ← Work.isCancelled token then p else q) moments c'
      (.done x)) :
    ∃ first c₁ second cancelled, moments = first ++ second ∧
      Amid (errandRules ε i) c (Work.isCancelled token) first c₁ (.done cancelled) ∧
      ((SeenStopped token first ∧ Amid (errandRules ε i) c₁ p second c' (.done x)) ∨
        Amid (errandRules ε i) c₁ q second c' (.done x)) := by
  obtain ⟨first, c₁, cancelled, second, rfl, hlook, run⟩ := run.bind_inv
  refine ⟨first, c₁, second, cancelled, rfl, hlook, ?_⟩
  cases cancelled with
  | false => exact .inr run
  | true =>
    obtain ⟨m, hm, -, hcancelled⟩ := hlook.does.look_inv
    exact .inl ⟨⟨m.before, ⟨m, hm, rfl⟩, hcancelled.symm⟩, run⟩

/-! ### The end of a write -/

/-- The end of a write whose pipeline is over; `number` and `child` are of its own. -/
def finishWrite (number : Nat) (child token : Token) (outcome : Except Failure WriteReport) :
    WriteScript ε (Except Failure WriteReport) := do
  .lift (Program.update (World.finish number))
  match outcome with
  | .error e => return .error e
  | .ok r =>
    if ← .lift (Work.isCancelled child) then
      return .ok (markStopped r (← .lift (Work.isCancelled token)))
    else return .ok r

/-- What is left of a write that has reached its servers. -/
def afterReaching (s : Session ε) (entry : WriteEntry) (timeout : Nat) (token : Token)
    (number : Nat) (child : Token) (reached : Reached) (floors : List (String × Nat)) :
    WriteScript ε (Except Failure WriteReport) := do
  finishWrite number child token (← s.carryOut entry timeout child reached floors)

theorem writeScript_eq (s : Session ε) (entry : WriteEntry) (timeout : Nat) (token : Token) :
    s.writeScript entry timeout token = (do
      let (number, child) ← WriteScript.begin token
      let limit := (← .lift Work.now) + s.settings.writeDeadline
      .lift (Program.fork (deadline limit number))
      let reached := (← .lift (s.applicable entry.path child)).toOption.getD Reached.none
      let floors ← .lift (Program.look fun w => floorsOf w reached.targets)
      s.afterReaching entry timeout token number child reached floors) := rfl

/-- A write that is not reported to have been stopped reports what the pipeline does, and was not
stopped before its end. -/
theorem finishWrite_clean {number : Nat} {child : Token} {outcome : Except Failure WriteReport}
    (run : Amid (errandRules ε i) c
      ((finishWrite number child token outcome).run (WriteAct.performed s)) moments c'
      (.done (.ok r))) (hcancelled : r.cancelled = false) (hexpired : r.deadlineExpired = false) :
    outcome = .ok r ∧ ∃ w, Seen moments w ∧ w.isCancelled child = false := by
  obtain ⟨finishing, c₁, _, rest, rfl, -, run⟩ := run.lift_bind_inv
  cases outcome with
  | error e =>
    obtain ⟨heq, -⟩ := run.does.pure_inv
    cases heq
  | ok r' =>
    obtain ⟨looking, c₂, stopped, rest, rfl, hlook, run⟩ := run.lift_bind_inv
    cases stopped with
    | true =>
      obtain ⟨_, c₃, byCaller, _, -, -, run⟩ := run.lift_bind_inv
      obtain ⟨heq, -⟩ := run.does.pure_inv
      cases heq
      cases byCaller with
      | true => cases hcancelled
      | false => cases hexpired
    | false =>
      obtain ⟨heq, -⟩ := run.does.pure_inv
      cases heq
      obtain ⟨m, hm, -, hstopped⟩ := hlook.does.look_inv
      exact ⟨rfl, m.before, ⟨m, by simp [hm], rfl⟩, hstopped.symm⟩

theorem keeps_finishWrite {G : World ε → World ε → Prop} (hG : ∀ w, G w w)
    (hfinish : ∀ number w, G w (World.finish number w)) {number : Nat} {child : Token}
    {outcome : Except Failure WriteReport} :
    Keeps G ((finishWrite number child token outcome).run (WriteAct.performed s)) := by
  refine Keeps.bind (Keeps.update (hfinish number)) fun _ => ?_
  cases outcome with
  | error e => exact Keeps.pure _
  | ok r =>
    refine Keeps.bind (Keeps.look hG) fun stopped => ?_
    cases stopped with
    | true => exact Keeps.bind (Keeps.look hG) fun _ => Keeps.pure _
    | false => exact Keeps.pure _

/-! ### The parts of a pipeline -/

/-- How a pipeline that has reached its servers comes to a report. -/
inductive CarriesOut (s : Session ε) (i : Nat) (entry : WriteEntry) (timeout : Nat) (token : Token)
    (reached : Reached) (floors : List (String × Nat))
    (c : Crew (World ε) Errand (Option Outcome)) :
    List (Moment (World ε)) → Crew (World ε) Errand (Option Outcome) → WriteReport → Prop
  | parts {preparing storing saving concluding : List (Moment (World ε))}
      {c₁ c₂ c₃ c' : Crew (World ε) Errand (Option Outcome)} {final : String}
      {r₁ r₂ r : WriteReport}
      (prepares : Amid (errandRules ε i) c ((s.prepare entry reached.targets token
        (WriteReport.start entry.path)).run (WriteAct.performed s)) preparing c₁
        (.done (.ok (final, r₁))))
      (stores : Amid (errandRules ε i) c₁ (persist entry.path final) storing c₂ (.done (.ok ())))
      (saves : Amid (errandRules ε i) c₂
        (saveAll (reached.targets.filterMap Applicable.connection?) entry.path token
          { r₁ with bytes := final.utf8ByteSize }) saving c₃ (.done r₂))
      (concludes : Amid (errandRules ε i) c₃ (s.conclude entry reached floors timeout token r₂)
        concluding c' (.done r)) :
      CarriesOut s i entry timeout token reached floors c
        (preparing ++ (storing ++ (saving ++ concluding))) c' r

theorem carriesOut_of_run
    (run : Amid (errandRules ε i) c
      ((s.carryOut entry timeout token reached floors).run (WriteAct.performed s)) moments c'
      (.done (.ok r))) : s.CarriesOut i entry timeout token reached floors c moments c' r := by
  obtain ⟨preparing, c₁, prepared, rest, rfl, hprepare, run⟩ := run.run_bind_inv
  cases prepared with
  | error e =>
    obtain ⟨heq, -⟩ := run.does.pure_inv
    cases heq
  | ok prepared =>
    obtain ⟨final, r₁⟩ := prepared
    obtain ⟨storing, c₂, stored, rest, rfl, hstore, run⟩ := run.perform_bind_inv
    change Except Failure Unit at stored
    match stored with
    | .error e =>
      obtain ⟨heq, -⟩ := run.does.pure_inv
      cases heq
    | .ok () =>
      obtain ⟨saving, c₃, r₂, concluding, rfl, hsave, run⟩ := run.lift_bind_inv
      obtain ⟨concluding, c₄, r₃, rest, rfl, hconclude, hend⟩ := run.lift_bind_inv
      obtain ⟨heq, hconclude⟩ := hconclude.done_append hend
      cases heq
      exact .parts hprepare hstore hsave hconclude

/-! ### Paths without a URI -/

section

variable {e : Failure} {targets : List Applicable} {final : String}

theorem failing_of_uri (huri : Uri.ofPath path = .error e) : e.isCancelled = false := by
  unfold Uri.ofPath at huri
  split at huri
  · cases huri
  · cases huri
    rfl

/-- To send a document without a URI fails. -/
theorem syncAll_stopped (huri : Uri.ofPath path = .error e) {j : Nat} (hj : j ∈ connections)
    (run : Amid (errandRules ε i) c (syncAll connections path content token r) moments c'
      (.done r')) (hquiet : r'.warnings = []) : SeenStopped token moments := by
  obtain ⟨looking, c₁, rest, _, rfl, -, ⟨hstopped, -⟩ | run⟩ := unlessStopped run
  · exact hstopped.left
  · obtain ⟨results, rfl, hround⟩ := run.label_inv
    obtain ⟨k, hk, rfl⟩ := List.getElem_of_mem hj
    have hresults := hround.alongside.results
    have hk' : k < results.length := hresults.length_eq ▸ hk
    have hfails : (do
        let outcome ← Document.syncContent connections[k] path content token
        return ((← Work.connection connections[k]).name, outcome) : Work ε _).Results
          fun result => result.2 = .error e := by
      rw [Document.syncContent, huri]
      refine Results.bind (P := (· = .error e)) (Results.pure rfl) fun outcome houtcome => ?_
      exact Results.then fun conn => Results.pure houtcome
    have hfailed : (results[k]).2 = .error e := (hresults.get hk hk').results hfails
    have hmem : ((results[k]).1, .error e) ∈ results := by
      rw [← hfailed]
      exact List.getElem_mem hk'
    have hcancelled := (WriteReport.degradeAll_quiet hquiet).2 _ e hmem
    rw [failing_of_uri huri] at hcancelled
    cases hcancelled

theorem prepare_stopped (huri : Uri.ofPath entry.path = .error e) {j : Nat}
    (hj : j ∈ targets.filterMap Applicable.connection?)
    (run : Amid (errandRules ε i) c ((s.prepare entry targets token r).run (WriteAct.performed s))
      moments c' (.done (.ok (final, r')))) (hquiet : r'.warnings = []) :
    SeenStopped token moments := by
  unfold Session.prepare at run
  dsimp only at run
  -- in either order the servers are told, which fails without a URI unless the run is stopped
  split at run
  · obtain ⟨formatting, c₁, formatted, rest, rfl, -, run⟩ := run.run_bind_inv
    cases formatted with
    | error e =>
      obtain ⟨heq, -⟩ := run.does.pure_inv
      cases heq
    | ok formatted =>
      obtain ⟨syncing, c₂, r₂, rest, rfl, hsyncing, run⟩ := run.lift_bind_inv
      obtain ⟨heq, -⟩ := run.does.pure_inv
      cases heq
      exact (syncAll_stopped huri hj hsyncing hquiet).left.right
  · obtain ⟨syncing, c₁, r₁, rest, rfl, hsyncing, run⟩ := run.lift_bind_inv
    suffices hr₁ : r₁.warnings = [] from (syncAll_stopped huri hj hsyncing hr₁).left
    split at run
    · obtain ⟨heq, -⟩ := run.does.pure_inv
      cases heq
      exact hquiet
    · obtain ⟨formatting, c₂, ⟨formatted, r₂⟩, rest, rfl, hformatting, run⟩ := run.run_bind_inv
      refine hformatting.results formatWithServer_quiet ?_
      cases formatted with
      | none =>
        obtain ⟨heq, -⟩ := run.does.pure_inv
        cases heq
        exact hquiet
      | some formatted =>
        obtain ⟨again, c₃, r₃, rest, rfl, hagain, run⟩ := run.lift_bind_inv
        obtain ⟨heq, -⟩ := run.does.pure_inv
        cases heq
        exact hagain.results step_quiet hquiet

/-- A pipeline reports nothing but a cancellation only if the path has a URI, where there are
servers to be told. -/
theorem CarriesOut.stopped (huri : Uri.ofPath entry.path = .error e) {j : Nat}
    (hj : j ∈ reached.targets.filterMap Applicable.connection?)
    (h : s.CarriesOut i entry timeout token reached floors c moments c' r)
    (hquiet : r.warnings = []) : SeenStopped token moments := by
  obtain ⟨hprepare, -, hsave, hconclude⟩ := h
  have hsaved := hconclude.results conclude_quiet hquiet
  exact (prepare_stopped huri hj hprepare (hsave.results step_quiet hsaved)).left

end

end Session

end LspClient
