import LspClient.Diagnostic.Report
import LspClient.Proofs.Diagnostic.Merging
import Mathlib.Data.List.Forall2

/-!
# What a report adds up to

A server that fails leaves its failure in a report and nothing else (`Isolates`): what is said about
the file is what the others say, and they say it as if it had not been asked. All counts of a report
are taken from its items, of which the lines show no more than a beginning, so they add up whatever
is shown.

Servers may report the same problem and grade it differently. A report shows it once, as it is
graded where it is reported first, in the order of the servers (`ShowsFirsts`): an error that comes
behind a warning at the same range with the same message is not shown
(`error_behind_warning`). So which errors there are hangs on the order of the servers, unless
all grade alike; at which ranges there is something, and with which messages, does not
(`itemsOf_perm`).
-/

namespace LspClient.FileReport

variable {path : Path} {results : Results} {r : FileReport}

/-! ### Servers that answer and servers that fail -/

namespace Results

def Answers (result : String × Except Failure (List Diagnostic)) : Bool :=
  match result.2 with
  | .ok _ => true
  | .error _ => false

/-- The results of those who answered. -/
def answering (results : Results) : Results := results.filter Answers

/-- The results of those who failed. -/
def failing (results : Results) : Results := results.filter fun result => !Answers result

/-- The items of those who answered, in the order of the servers. -/
def itemsOf (results : Results) : List Diagnostic :=
  results.flatMap fun result =>
    match result.2 with
    | .ok items => items
    | .error _ => []

/-- The failure names the server, and says what went wrong. -/
def Tells (failure : ServerFailure) (result : String × Except Failure (List Diagnostic)) : Prop :=
  ∃ e, result = (failure.server, .error e) ∧ failure.message = e.message

section Cons

variable (server : String) (items : List Diagnostic) (e : Failure) (rest : Results)

@[simp] theorem answered_ok :
    answered ((server, .ok items) :: rest) = (server, items) :: answered rest := rfl

@[simp] theorem answered_error : answered ((server, .error e) :: rest) = answered rest := rfl

@[simp] theorem failed_ok : failed ((server, .ok items) :: rest) = failed rest := rfl

@[simp] theorem failed_error :
    failed ((server, .error e) :: rest) = ⟨server, e.message⟩ :: failed rest := rfl

@[simp] theorem answering_ok :
    answering ((server, .ok items) :: rest) = (server, .ok items) :: answering rest := rfl

@[simp] theorem answering_error : answering ((server, .error e) :: rest) = answering rest := rfl

@[simp] theorem failing_ok : failing ((server, .ok items) :: rest) = failing rest := rfl

@[simp] theorem failing_error :
    failing ((server, .error e) :: rest) = (server, .error e) :: failing rest := rfl

@[simp] theorem itemsOf_ok :
    itemsOf ((server, .ok items) :: rest) = items ++ itemsOf rest := rfl

@[simp] theorem itemsOf_error : itemsOf ((server, .error e) :: rest) = itemsOf rest := rfl

end Cons

theorem answered_answering (results : Results) : results.answering.answered = results.answered := by
  induction results with
  | nil => rfl
  | cons result rest ih =>
    obtain ⟨server, e | items⟩ := result
    · rw [answering_error, answered_error, ih]
    · rw [answering_ok, answered_ok, answered_ok, ih]

theorem map_fst_answered (results : Results) :
    results.answered.map (·.1) = results.answering.map (·.1) := by
  induction results with
  | nil => rfl
  | cons result rest ih =>
    obtain ⟨server, e | items⟩ := result
    · rw [answered_error, answering_error, ih]
    · rw [answered_ok, answering_ok, List.map_cons, List.map_cons, ih]

theorem flatMap_answered (results : Results) :
    results.answered.flatMap (·.2) = results.itemsOf := by
  induction results with
  | nil => rfl
  | cons result rest ih =>
    obtain ⟨server, e | items⟩ := result
    · rw [answered_error, itemsOf_error, ih]
    · rw [answered_ok, itemsOf_ok, List.flatMap_cons, ih]

/-- Every failure is told, in its place. -/
theorem tells_failed (results : Results) : List.Forall₂ Tells results.failed results.failing := by
  induction results with
  | nil => exact .nil
  | cons result rest ih =>
    obtain ⟨server, e | items⟩ := result
    · rw [failed_error, failing_error]
      exact .cons ⟨e, rfl, rfl⟩ ih
    · rwa [failed_ok, failing_ok]

/-- A server either answers or fails. -/
theorem length_answering_add_length_failing (results : Results) :
    results.answering.length + results.failing.length = results.length := by
  induction results with
  | nil => rfl
  | cons result rest ih =>
    obtain ⟨server, e | items⟩ := result
    · rw [answering_error, failing_error, List.length_cons, List.length_cons]
      omega
    · rw [answering_ok, failing_ok, List.length_cons, List.length_cons]
      omega

end Results

open Results (answering failing itemsOf Tells)

/-! ### Counts -/

/-- The items that are neither errors nor warnings. -/
def otherCount (r : FileReport) : Nat :=
  r.items.countP fun d => d.severity != .error && d.severity != .warning

/-- The items that no line shows. -/
def hiddenCount (r : FileReport) : Nat := r.items.length - r.lines.length

theorem errorCount_add_warnings_add_otherCount (r : FileReport) :
    r.errorCount + r.count .warning + r.otherCount = r.items.length := by
  unfold errorCount count otherCount
  induction r.items with
  | nil => rfl
  | cons d ds ih =>
    simp only [List.countP_cons, List.length_cons]
    cases d.severity <;> simp <;> omega

/-- The counts in a summary are those of the items, and nothing is subtracted from less. -/
theorem tally_eq (r : FileReport) : r.tally =
    ", ".intercalate (if r.otherCount = 0 then
        [plural r.errorCount "error", plural (r.count .warning) "warning"]
      else [plural r.errorCount "error", plural (r.count .warning) "warning",
        s!"{r.otherCount} other"]) := by
  have hsum := errorCount_add_warnings_add_otherCount r
  have hother : r.items.length - r.errorCount - r.count .warning = r.otherCount := by omega
  unfold tally
  simp only [hother]
  by_cases hzero : r.otherCount = 0
  · simp [hzero]
  · simp [hzero, Nat.pos_of_ne_zero hzero]

/-- What a report shows below its summary when `hidden` of its items are not shown. -/
theorem render_eq (r : FileReport) : r.render =
    r.summary ++ "\n" ++ String.join (r.lines.map (fun line => s!"  {line}\n") ++
      (if r.hiddenCount = 0 then [] else [s!"  ... {r.hiddenCount} more not shown\n"]) ++
      r.failures.map fun f => s!"  [{f.server}] failed: {f.message}\n") := by
  have htruncated : r.truncated = true ↔ r.hiddenCount ≠ 0 := by
    simp [truncated, hiddenCount]
    omega
  unfold render
  by_cases hzero : r.hiddenCount = 0
  · have hnot : ¬ r.truncated = true := fun h => htruncated.1 h hzero
    simp only [hzero, hnot, ↓reduceIte, Bool.false_eq_true]
  · have hyes : r.truncated = true := htruncated.2 hzero
    simp only [hzero, hyes, ↓reduceIte]
    rfl

/-! ### Whole reports -/

/-- What a report on `path` says when the servers came to these results, and some could not be
reached. -/
structure Isolates (path : Path) (results : Results) (unreached : List ServerFailure)
    (r : FileReport) : Prop where
  /-- Those who failed might as well not have been asked. -/
  servers_eq : r.servers = (assemble path results.answering).servers
  items_eq : r.items = (assemble path results.answering).items
  lines_eq : r.lines = (assemble path results.answering).lines
  /-- Whoever applies has answered or is among the failures, and keeps its place there. -/
  servers : r.servers = results.answering.map (·.1)
  failures : ∃ told, r.failures = told ++ unreached ∧ List.Forall₂ Tells told results.failing
  applicable : r.applicable = r.servers.length + r.failures.length
  asked : r.applicable = results.length + unreached.length
  hasNoServers : r.hasNoServers = true ↔ results = [] ∧ unreached = []
  items : r.items = Diagnostic.merge results.itemsOf
  lines : r.lines = (r.items.take (min 50 r.items.length)).map fun d => d.line path
  truncated : r.truncated = true ↔ 50 < r.items.length
  shown : r.lines.length + r.hiddenCount = r.items.length
  render : r.render = r.summary ++ "\n" ++ String.join (r.lines.map (fun line => s!"  {line}\n") ++
    (if r.hiddenCount = 0 then [] else [s!"  ... {r.hiddenCount} more not shown\n"]) ++
    r.failures.map fun f => s!"  [{f.server}] failed: {f.message}\n")
  counts : r.errorCount + r.count .warning + r.otherCount = r.items.length
  tally : r.tally = ", ".intercalate (if r.otherCount = 0 then
      [plural r.errorCount "error", plural (r.count .warning) "warning"]
    else [plural r.errorCount "error", plural (r.count .warning) "warning",
      s!"{r.otherCount} other"])

theorem take_maxLines (items : List Diagnostic) :
    items.take maxLines = items.take (min 50 items.length) := by
  show items.take 50 = _
  rcases Nat.le_total items.length 50 with h | h
  · rw [Nat.min_eq_right h, List.take_length, List.take_of_length_le h]
  · rw [Nat.min_eq_left h]

theorem length_lines_assemble (path : Path) (results : Results) :
    (assemble path results).lines.length = min 50 (assemble path results).items.length := by
  show ((assemble path results).items.take 50 |>.map _).length = _
  rw [List.length_map, List.length_take]

theorem isolates_failures (path : Path) (results : Results) (unreached : List ServerFailure) :
    Isolates path results unreached ((assemble path results).withConnectFailures unreached) := by
  have hanswered := results.answered_answering
  have hlines : ((assemble path results).withConnectFailures unreached).lines.length =
      min 50 ((assemble path results).withConnectFailures unreached).items.length :=
    length_lines_assemble path results
  have hservers : (assemble path results).servers = results.answering.map (·.1) :=
    results.map_fst_answered
  have hfailed : results.failed.length = results.failing.length := results.tells_failed.length_eq
  constructor
  case servers_eq =>
    show results.answered.map (·.1) = results.answering.answered.map (·.1)
    rw [hanswered]
  case items_eq =>
    show Diagnostic.merge (results.answered.flatMap (·.2)) =
      Diagnostic.merge (results.answering.answered.flatMap (·.2))
    rw [hanswered]
  case lines_eq =>
    show ((Diagnostic.merge (results.answered.flatMap (·.2))).take maxLines).map _ =
      ((Diagnostic.merge (results.answering.answered.flatMap (·.2))).take maxLines).map _
    rw [hanswered]
  case servers => exact hservers
  case failures => exact ⟨results.failed, rfl, results.tells_failed⟩
  case applicable =>
    show results.length + unreached.length =
      (assemble path results).servers.length + (results.failed ++ unreached).length
    have hlength := results.length_answering_add_length_failing
    rw [hservers, List.length_map, List.length_append, hfailed]
    omega
  case asked => rfl
  case hasNoServers =>
    show (results.length + unreached.length == 0) = true ↔ _
    rw [beq_iff_eq, Nat.add_eq_zero_iff, List.length_eq_zero_iff, List.length_eq_zero_iff]
  case items =>
    show Diagnostic.merge (results.answered.flatMap (·.2)) = _
    rw [results.flatMap_answered]
  case lines =>
    show ((assemble path results).items.take maxLines).map _ = _
    rw [take_maxLines]
    rfl
  case truncated =>
    unfold FileReport.truncated
    rw [decide_eq_true_eq, hlines]
    omega
  case shown =>
    unfold hiddenCount
    rw [hlines]
    omega
  case render => exact render_eq _
  case counts => exact errorCount_add_warnings_add_otherCount _
  case tally => exact tally_eq _

end LspClient.FileReport

namespace LspClient.FileReport

open Diagnostic (IsFirst StableFirsts stableFirsts_of_merge)

variable {path : Path} {results results' : Results} {r : FileReport} {d : Diagnostic}
  {spot : Range × String} {severity : Severity}

/-! ### What is reported -/

namespace Results

/-- An error is what is reported first, at its range with its message. -/
def HasFirstError (results : Results) : Prop :=
  ∃ d, IsFirst results.itemsOf d ∧ d.severity = .error

/-- What is reported at one range with one message is graded alike. -/
def GradedAlike (results : Results) : Prop :=
  ∀ a ∈ results.itemsOf, ∀ b ∈ results.itemsOf, a.spot = b.spot → a.severity = b.severity

theorem exists_isFirst (hd : d ∈ results.itemsOf) :
    ∃ e, IsFirst results.itemsOf e ∧ e.spot = d.spot := by
  have hsome : (results.itemsOf.find? (·.spot = d.spot)).isSome := by
    rw [List.find?_isSome]
    exact ⟨d, hd, by simp⟩
  obtain ⟨e, he⟩ := Option.isSome_iff_exists.1 hsome
  have hspot : e.spot = d.spot := by simpa using List.find?_some he
  exact ⟨e, by rw [IsFirst, hspot]; exact he, hspot⟩

theorem GradedAlike.hasFirstError_iff (h : results.GradedAlike) :
    results.HasFirstError ↔ ∃ d ∈ results.itemsOf, d.severity = .error := by
  constructor
  · rintro ⟨d, hd, herror⟩
    exact ⟨d, List.mem_of_find?_eq_some hd, herror⟩
  · rintro ⟨d, hd, herror⟩
    obtain ⟨e, he, hspot⟩ := exists_isFirst hd
    exact ⟨e, he, (h e (List.mem_of_find?_eq_some he) d hd hspot).trans herror⟩

/-- The order of the servers is not in what is reported. -/
theorem itemsOf_perm (h : results.Perm results') : results.itemsOf.Perm results'.itemsOf :=
  h.flatMap_right _

theorem GradedAlike.perm (halike : results.GradedAlike) (h : results.Perm results') :
    results'.GradedAlike := fun a ha b hb =>
  halike a ((itemsOf_perm h).mem_iff.2 ha) b ((itemsOf_perm h).mem_iff.2 hb)

end Results

/-! ### What is shown -/

/-- The report shows, of what was reported at each range with each message, the first. -/
structure ShowsFirsts (results : Results) (r : FileReport) : Prop where
  mem_iff : ∀ d, d ∈ r.items ↔ IsFirst results.itemsOf d
  distinct : r.items.Pairwise fun a b => a.spot ≠ b.spot

namespace ShowsFirsts

theorem spot_iff (h : ShowsFirsts results r) :
    (∃ d ∈ r.items, d.spot = spot) ↔ ∃ d ∈ results.itemsOf, d.spot = spot := by
  constructor
  · rintro ⟨d, hd, hspot⟩
    exact ⟨d, List.mem_of_find?_eq_some ((h.mem_iff d).1 hd), hspot⟩
  · rintro ⟨d, hd, rfl⟩
    obtain ⟨e, he, hspot⟩ := Results.exists_isFirst hd
    exact ⟨e, (h.mem_iff e).2 he, hspot⟩

/-- Where all grade alike, all that was reported is shown as it was graded. -/
theorem graded_iff (h : ShowsFirsts results r) (halike : results.GradedAlike) :
    (∃ d ∈ r.items, d.spot = spot ∧ d.severity = severity) ↔
      ∃ d ∈ results.itemsOf, d.spot = spot ∧ d.severity = severity := by
  constructor
  · rintro ⟨d, hd, hd'⟩
    exact ⟨d, List.mem_of_find?_eq_some ((h.mem_iff d).1 hd), hd'⟩
  · rintro ⟨d, hd, rfl, rfl⟩
    obtain ⟨e, he, hspot⟩ := Results.exists_isFirst hd
    exact ⟨e, (h.mem_iff e).2 he, hspot, halike e (List.mem_of_find?_eq_some he) d hd hspot⟩

theorem errorCount_pos (h : ShowsFirsts results r) :
    0 < r.errorCount ↔ results.HasFirstError := by
  unfold errorCount count
  rw [List.countP_pos_iff]
  constructor
  · rintro ⟨d, hd, herror⟩
    exact ⟨d, (h.mem_iff d).1 hd, by simpa using herror⟩
  · rintro ⟨d, hd, herror⟩
    exact ⟨d, (h.mem_iff d).2 hd, by simpa using herror⟩

end ShowsFirsts

theorem showsFirsts_assemble (path : Path) (results : Results) (unreached : List ServerFailure) :
    ShowsFirsts results ((assemble path results).withConnectFailures unreached) := by
  have hitems : ((assemble path results).withConnectFailures unreached).items =
      Diagnostic.merge results.itemsOf := (isolates_failures path results unreached).items
  have hfirsts : StableFirsts results.itemsOf (Diagnostic.merge results.itemsOf) :=
    stableFirsts_of_merge _
  constructor
  · intro d
    rw [hitems]
    exact hfirsts.mem_iff
  · rw [hitems]
    exact hfirsts.distinct

end LspClient.FileReport
