import LspClient.Proofs.FileTree.Rereading
import LspClient.Proofs.Text.Bytes
import LspClient.Proofs.Write.Clean
import LspClient.Proofs.Write.Rounds

/-!
# Agreement

After a clean write the servers and the disk agree. Up to the moment in which the text is put on
disk a server is sent texts of the document, and the last one is the text that is stored; from then
on it is told that the file was saved, and is sent what is on disk (`Settles`). Whatever else goes on
at the same time may use the connection, as long as it leaves the file alone.

The steps of the pipeline are taken one by one (`Resting.prepare`, `Resting.saveAll`,
`Resting.conclude`) and put together (`Resting.carryOut`).
-/

namespace LspClient.Session

open Program Crew Document

variable {ε α : Type} {s : Session ε} {i : Nat} {w : World ε} {uri content : String} {wire : Wire}
  {path : Path} {token : Token} {moments : List (Moment (World ε))} {entry : WriteEntry}
  {c c' : Crew (World ε) Errand (Option Outcome)} {r r' : WriteReport} {connections : List Nat}
  {reached : Reached} {floors : List (String × Nat)} {timeout : Nat}

/-! ### Steps -/

/-- A step that goes round the connections, and is left out where the write was cancelled. -/
theorem Resting.step {x : Ask} {step : String} (h : Resting i uri wire c)
    (huri : x.uri? = some uri)
    (run : Amid (errandRules ε i) c (do
        if ← Work.isCancelled x.token then return r
        else return r.degradeAll step (← onAll connections fun j => x.program j)) moments c'
      (.done r')) :
    Stretch i uri wire moments c' (Speaks i x.path (Seen moments) x.operation) ∧
      (r'.warnings = [] → i ∈ connections → SeenStopped x.token moments ∨
        ToldBy (tidingsOf uri wire.written) (told i uri wire moments) x.operation) := by
  obtain ⟨looking, c₁, rest, _, rfl, hlook, run⟩ := unlessStopped run
  have hlooking := h.silent (Keeps.look Spares.refl) hlook
  rcases run with ⟨hstopped, run⟩ | run
  · have hrest := hlooking.rests.silent (Keeps.pure _) run
    exact ⟨(hlooking.append hrest).mono nofun, fun _ _ => .inl hstopped.left⟩
  · obtain ⟨results, rfl, hgoing⟩ := run.label_inv
    obtain ⟨hround, htold⟩ := hlooking.rests.round huri hgoing
    refine ⟨(hlooking.mono nofun).append (hround.mono fun tiding hspeaks =>
      hspeaks.mono fun w hw => hw.right), fun hquiet hi => ?_⟩
    obtain ⟨name, outcome, hmem, hstopped, htold⟩ := htold hi
    rw [told_append, hlooking.told_eq_nil, List.nil_append]
    cases outcome with
    | error e =>
      obtain ⟨w, hw, hstopped⟩ :=
        hstopped e rfl ((WriteReport.degradeAll_quiet hquiet).2 name e hmem)
      exact .inl ⟨w, hw.right, hstopped⟩
    | ok o =>
      have htold := htold o rfl
      rw [tidingsOf_along, hlooking.told_eq_nil, List.append_nil] at htold
      exact .inr htold

/-- A request says nothing of documents. -/
theorem Resting.request {j : Nat} {method : String} {params : Option Json} {timeout : Option Nat}
    {answer : Except Failure Json} (h : Resting i uri wire c)
    (run : Amid (errandRules ε i) c (Connection.request j method params token timeout) moments c'
      (.done answer)) : Stretch i uri wire moments c' fun _ => False := by
  by_cases hj : j = i
  · subst hj
    have hhosted : Hosted (errandRules ε j) (fun _ _ => True)
        (begun (errandRules ε j) [.request method params token timeout])
        (Connection.request j method params token timeout) := by
      have hask := Hosted.ask (R := errandRules ε j) (S := fun _ _ => True)
        (x := Errand.request method params token timeout)
        (q := Connection.request j method params token timeout) (f := fun _ => none)
        (k := Program.done) (fun _ => trivial) fun _ => trivial
      have heq : (Connection.request j method params token timeout >>= Program.done) =
        Connection.request (ε := ε) j method params token timeout := bind_done
      rwa [heq] at hask
    obtain ⟨front, h⟩ := h
    obtain ⟨ys, hkeys, -, hrests, hcourse⟩ := h.course hhosted run
    refine stretch_of_course hrests hcourse fun x tiding hx => ?_
    rw [hkeys] at hx
    simp at hx
  · exact h.silent (Connection.touches_request.mono fun _ _ => spares_of_touches hj) run

/-- To ask a server for edits says nothing of the document. -/
theorem Resting.formatWithServer {result : Option String × WriteReport} (h : Resting i uri wire c)
    (run : Amid (errandRules ε i) c
      ((formatWithServer connections path content token r).run (WriteAct.performed s)) moments c'
      (.done result)) : Stretch i uri wire moments c' fun _ => False := by
  obtain ⟨looking, c₁, cancelled, rest, rfl, hlook, run⟩ := run.lift_bind_inv
  have h₁ := h.silent (Keeps.look Spares.refl) hlook
  refine h₁.append ?_
  cases cancelled with
  | true => exact h₁.rests.silent (Keeps.pure _) run
  | false =>
    obtain ⟨choosing, c₂, formatter, rest, rfl, hchoose, run⟩ := run.lift_bind_inv
    have h₂ := h₁.rests.silent (Keeps.look Spares.refl) hchoose
    refine h₂.append ?_
    cases formatter with
    | none => exact h₂.rests.silent (Keeps.pure _) run
    | some j =>
      obtain ⟨naming, c₃, conn, rest, rfl, hname, run⟩ := run.lift_bind_inv
      have h₃ := h₂.rests.silent (Keeps.look Spares.refl) hname
      refine h₃.append ?_
      dsimp only at run
      split at run
      · exact h₃.rests.silent (Keeps.pure _) run
      · obtain ⟨asking, c₄, answer, rest, rfl, hask, run⟩ := run.perform_bind_inv
        have h₄ := h₃.rests.request hask
        refine h₄.append (h₄.rests.silent ?_ run)
        cases answer <;> exact Keeps.pure _

theorem getLast?_of_forall {β : Type} {l : List β} {b : β} (hl : ∀ x ∈ l, x = b) (hb : b ∈ l) :
    l.getLast? = some b := by
  obtain ⟨x, hx⟩ : ∃ x, l.getLast? = some x :=
    Option.ne_none_iff_exists'.1 fun hnone => by
      rw [List.getLast?_eq_none_iff.1 hnone] at hb
      cases hb
  rw [hx, hl x (List.mem_of_getLast? hx)]

/-- Where nothing is noted and nothing was cancelled, the servers have been sent the content. -/
theorem Resting.syncAll (h : Resting i uri wire c) (huri : Uri.ofPath path = .ok uri)
    (hi : i ∈ connections)
    (run : Amid (errandRules ε i) c (syncAll connections path content token r) moments c'
      (.done r')) :
    Stretch i uri wire moments c' (· = .text (some content)) ∧
      (r'.warnings = [] → SeenStopped token moments ∨
        (told i uri wire moments).getLast? = some (.text (some content))) := by
  obtain ⟨hstretch, htold⟩ := h.step (x := ⟨.syncContent content, path, token⟩)
    (by rw [Ask.uri?, huri]; rfl) run
  have hstretch : Stretch i uri wire moments c' (· = .text (some content)) := by
    refine hstretch.mono fun tiding hspeaks => ?_
    cases hspeaks with
    | given => rfl
    | read _ _ hop => simp at hop
    | saved _ _ hop => simp at hop
    | savedAlone _ _ hop => simp at hop
  exact ⟨hstretch, fun hquiet => (htold hquiet hi).imp_right fun hmem =>
    getLast?_of_forall hstretch.tells hmem⟩

/-- Where nothing is noted and nothing was cancelled, the servers have been sent the text last that
is to be written. -/
theorem Resting.prepare {targets : List Applicable} {final : String}
    (hacts : s.Acts token fun p => Keeps (Spares i) p) (h : Resting i uri wire c)
    (huri : Uri.ofPath entry.path = .ok uri) (hi : i ∈ targets.filterMap Applicable.connection?)
    (run : Amid (errandRules ε i) c ((s.prepare entry targets token r).run (WriteAct.performed s))
      moments c' (.done (.ok (final, r')))) :
    Stretch i uri wire moments c' (fun tiding => ∃ content, tiding = .text (some content)) ∧
      (r'.warnings = [] → SeenStopped token moments ∨
        (told i uri wire moments).getLast? = some (.text (some final))) := by
  unfold Session.prepare at run
  dsimp only at run
  -- a linter formats before the servers are told of the text; a server has to know it first
  split at run
  · obtain ⟨formatting, c₁, formatted, rest, rfl, hformatting, run⟩ := run.run_bind_inv
    have h₁ := h.silent hacts.formatWithLinter hformatting
    cases formatted with
    | error e =>
      obtain ⟨heq, -⟩ := run.does.pure_inv
      cases heq
    | ok formatted =>
      obtain ⟨r₂, heq, hsyncing⟩ := run.label_inv
      cases heq
      obtain ⟨h₂, hsent⟩ := h₁.rests.syncAll huri hi hsyncing
      refine ⟨(h₁.mono nofun).append (h₂.mono fun _ h => ⟨_, h⟩), fun hquiet => ?_⟩
      rw [told_append, h₁.told_eq_nil, List.nil_append]
      exact (hsent hquiet).imp_left SeenStopped.right
  · obtain ⟨syncing, c₁, r₁, rest, rfl, hsyncing, run⟩ := run.lift_bind_inv
    obtain ⟨h₁, hsent⟩ := h.syncAll huri hi hsyncing
    have htexts := h₁.mono fun _ h => (⟨_, h⟩ : ∃ content, _ = Tiding.text (some content))
    split at run
    · obtain ⟨heq, -⟩ := run.does.pure_inv
      cases heq
      have h₂ := h₁.rests.silent (Keeps.pure _) run
      refine ⟨htexts.append (h₂.mono nofun), fun hquiet => ?_⟩
      rw [told_append, h₂.told_eq_nil, List.append_nil]
      exact (hsent hquiet).imp_left SeenStopped.left
    · obtain ⟨formatting, c₂, ⟨formatted, r₂⟩, rest, rfl, hformatting, run⟩ := run.run_bind_inv
      have h₂ := h₁.rests.formatWithServer hformatting
      have hquiet₂ : r₂.warnings = [] → r₁.warnings = [] := hformatting.results formatWithServer_quiet
      cases formatted with
      | none =>
        obtain ⟨heq, -⟩ := run.does.pure_inv
        cases heq
        have h₃ := h₂.append (h₂.rests.silent (Keeps.pure _) run)
        refine ⟨htexts.append (h₃.mono nofun), fun hquiet => ?_⟩
        rw [told_append, h₃.told_eq_nil, List.append_nil]
        exact (hsent (hquiet₂ hquiet)).imp_left SeenStopped.left
      -- the text has changed by formatting, so the servers are told once more
      | some formatted =>
        obtain ⟨r₃, heq, hagain⟩ := run.label_inv
        cases heq
        obtain ⟨h₃, hsent₃⟩ := h₂.rests.syncAll huri hi hagain
        refine ⟨htexts.append ((h₂.mono nofun).append (h₃.mono fun _ h => ⟨_, h⟩)),
          fun hquiet => (hsent₃ hquiet).imp (fun h => h.right.right) fun hlast => ?_⟩
        rw [told_append, told_append, h₂.told_eq_nil, List.nil_append, List.getLast?_append, hlast]
        rfl

/-- Where nothing is noted and nothing was cancelled, the servers have been told that the file was
saved. -/
theorem Resting.saveAll (h : Resting i uri wire c) (huri : Uri.ofPath path = .ok uri)
    (hi : i ∈ connections)
    (run : Amid (errandRules ε i) c (saveAll connections path token r) moments c' (.done r')) :
    Stretch i uri wire moments c' (Speaks i path (Seen moments) .notifySaved) ∧
      (r'.warnings = [] → SeenStopped token moments ∨ (tidingsOf uri wire.written ≠ [] →
        ∃ content, .saved content ∈ told i uri wire moments)) := by
  obtain ⟨hstretch, htold⟩ := h.step (x := ⟨.notifySaved, path, token⟩)
    (by rw [Ask.uri?, huri]; rfl) run
  exact ⟨hstretch, fun hquiet => htold hquiet hi⟩

theorem Resting.conclude (hlint : ∀ name kind path expiry,
      Keeps (Spares i) ((s.linters name kind).lint path ⟨token, expiry⟩))
    (h : Resting i uri wire c) (huri : Uri.ofPath entry.path = .ok uri)
    (run : Amid (errandRules ε i) c (s.conclude entry reached floors timeout token r) moments c'
      (.done r')) :
    Stretch i uri wire moments c' (Speaks i entry.path (Seen moments) .refresh) := by
  obtain ⟨looking, c₁, cancelled, rest, rfl, hlook, run⟩ := run.bind_inv
  have h₁ := h.silent (Keeps.look Spares.refl) hlook
  change Amid _ _ (if _ then _ else _) _ _ _ at run
  split at run
  · obtain ⟨collecting, c₂, found, last, rfl, hcollecting, run⟩ := run.bind_inv
    have h₂ := h₁.rests.collect hlint huri hcollecting
    have h₃ := h₂.rests.silent (by
      cases found with
      | ok found => exact Keeps.pure _
      | error e =>
        dsimp only
        split <;> exact Keeps.pure _) run
    refine (h₁.mono nofun).append ((h₂.append (h₃.mono nofun)).mono ?_)
    exact fun tiding hspeaks => hspeaks.mono fun w hw => hw.left.right
  · exact (h₁.append (h₁.rests.silent (Keeps.pure _) run)).mono nofun

/-! ### What a write leaves alone -/

/-- A path leads where it did. -/
def SameFile (path : Path) (w w' : World ε) : Prop := w'.files.stat path = w.files.stat path

theorem SameFile.refl (w : World ε) : SameFile path w w := rfl

/-- A linter leaves a connection alone and takes no cancellation back. It may change the file only
when it formats. -/
structure LintersSpare (s : Session ε) (i : Nat) (path : Path) (token : Token) : Prop where
  format : ∀ name kind path content,
    Keeps (fun w w' => Spares i w w' ∧ w.StaysCancelled w')
      ((s.linters name kind).format path content token)
  lint : ∀ name kind path' expiry,
    Keeps (fun w w' => Spares i w w' ∧ w.StaysCancelled w' ∧ SameFile path w w')
      ((s.linters name kind).lint path' ⟨token, expiry⟩)

theorem spares_acts (h : s.LintersSpare i path token) :
    s.Acts token fun p => Keeps (Spares i) p where
  toWaits := keeps_waits Spares.refl fun name kind path' expiry =>
    (h.lint name kind path' expiry).mono fun _ _ h => h.1
  store _ _ := keeps_persist (fun _ => .of_eq (Nat.le_refl _) rfl)
    fun _ _ => .of_eq (Nat.le_refl _) rfl
  format name kind path' content := (h.format name kind path' content).mono fun _ _ h => h.1

theorem cautious_steps (h : s.LintersSpare i path token) :
    s.Steps token fun p => Keeps World.StaysCancelled p where
  toWaits := keeps_waits World.StaysCancelled.refl fun name kind path' expiry =>
    (h.lint name kind path' expiry).mono fun _ _ h => h.2.1
  store _ _ := keeps_persist (fun _ => World.staysCancelled_of_eq rfl)
    fun _ _ => World.staysCancelled_of_eq rfl
  format name kind path' content := (h.format name kind path' content).mono fun _ _ h => h.2
  document _ := Connection.keeps_documents fun _ _ h => World.staysCancelled_of_eq h.cancelled
  request _ _ _ _ :=
    Connection.touches_request.mono fun _ _ h => World.staysCancelled_of_eq h.cancelled

theorem sameFile_waits (h : s.LintersSpare i path token) :
    s.Waits token fun p => Keeps (SameFile path) p :=
  keeps_waits SameFile.refl fun name kind path' expiry =>
    (h.lint name kind path' expiry).mono fun _ _ h => h.2.2

theorem sameFile_documents (j : Nat) :
    Document.Parts (ε := ε) j token fun p => Keeps (SameFile path) p :=
  Connection.keeps_documents fun w w' h => by rw [SameFile, h.files]

/-! ### The order of a write -/

/-- A write, as a connection and the disk see it: the server is sent texts, the last one of which is
stored, and afterwards it is told that the file was saved. -/
structure Puts (i : Nat) (uri : String) (path : Path) (a : Actor) (wire : Wire)
    (telling : List (Moment (World ε))) (m : Moment (World ε)) (saving : List (Moment (World ε)))
    (final : String) : Prop where
  actor : m.actor = a
  stores : Workspace.writeText path final m.before = (none, m.after)
  texts : ∀ tiding ∈ told i uri wire telling, ∃ content, tiding = .text (some content)
  last : (told i uri wire telling).getLast? = some (.text (some final))
  saved : ∃ content, .saved content ∈ told i uri (wire.along i telling) (m :: saving)

/-- Nothing else is told afterwards than what the operations say that read the file. -/
structure Settles (i : Nat) (uri : String) (path : Path) (a : Actor) (wire : Wire)
    (telling : List (Moment (World ε))) (m : Moment (World ε)) (saving : List (Moment (World ε)))
    (final : String) : Prop extends Puts i uri path a wire telling m saving final where
  speaks : ∀ tiding ∈ told i uri (wire.along i telling) (m :: saving),
    ∃ operation, (operation = .notifySaved ∨ operation = .refresh) ∧
      Speaks i path (Seen saving) operation tiding
  file : ∀ m' ∈ saving, SameFile path m'.before m'.after

theorem does_persist {a : Actor} (h : Does a (persist path content) moments (.done (.ok ()))) :
    ∃ before m after, moments = before ++ m :: after ∧ m.actor = a ∧ Silent a after ∧
      Workspace.writeText path content m.before = (none, m.after) := by
  obtain ⟨writing, error, rest, rfl, hwriting, h⟩ := h.bind_inv
  obtain ⟨before, m, after, rfl, hm, hafter, hwrite⟩ := does_inBackground hwriting
  cases error with
  | some e =>
    obtain ⟨heq, -⟩ := h.pure_inv
    cases heq
  | none =>
    obtain ⟨-, hrest⟩ := h.pure_inv
    exact ⟨before, m, after ++ rest, by simp, hm, hafter.append hrest, hwrite⟩

theorem Settles.append {a : Actor} {telling saving later : List (Moment (World ε))}
    {m : Moment (World ε)} {final : String}
    (h : Settles i uri path a wire telling m saving final)
    (hlater : Stretch i uri (wire.along i (telling ++ m :: saving)) later c' fun _ => False)
    (hfile : ∀ m' ∈ later, SameFile path m'.before m'.after) :
    Settles i uri path a wire telling m (saving ++ later) final := by
  have htold : told i uri (wire.along i telling) (m :: (saving ++ later)) =
      told i uri (wire.along i telling) (m :: saving) := by
    rw [← List.cons_append, told_append, ← Wire.along_append, hlater.told_eq_nil, List.append_nil]
  refine { h with speaks := ?_, saved := htold ▸ h.saved, file := ?_ }
  · intro tiding htiding
    rw [htold] at htiding
    obtain ⟨operation, hop, hspeaks⟩ := h.speaks tiding htiding
    exact ⟨operation, hop, hspeaks.mono fun w hw => hw.left⟩
  · exact fun m' hm' => (List.mem_append.1 hm').elim (h.file m') (hfile m')

theorem Resting.carryOut (hlinters : s.LintersSpare i entry.path token)
    (h : Resting i uri wire c) (huri : Uri.ofPath entry.path = .ok uri)
    (hi : i ∈ reached.targets.filterMap Applicable.connection?)
    (run : s.CarriesOut i entry timeout token reached floors c moments c' r)
    (hothers : ∀ m ∈ moments, m.actor ≠ own c → SameFile entry.path m.before m.after)
    (hquiet : r.warnings = []) :
    Resting i uri (wire.along i moments) c' ∧ (SeenStopped token moments ∨
      ∃ final telling m saving, moments = telling ++ m :: saving ∧
        Settles i uri entry.path (own c) wire telling m saving final) := by
  obtain @⟨preparing, storing, saving, concluding, c₁, c₂, c₃, _, final, r₁, r₂, _, hprepare, hstore,
    hsave, hconclude⟩ := run
  have hacts := spares_acts hlinters
  obtain ⟨h₁, hsent⟩ := h.prepare hacts huri hi hprepare
  have h₂ := h₁.rests.silent (hacts.store _ _) hstore
  obtain ⟨h₃, hsaved⟩ := h₂.rests.saveAll huri hi hsave
  have h₄ := h₃.rests.conclude hacts.lint huri hconclude
  refine ⟨by simpa only [Wire.along_append] using h₄.rests, ?_⟩
  have hr₂ := hconclude.results conclude_quiet hquiet
  -- without a warning the text was told before the write, and the save is told after it
  rcases hsent (hsave.results step_quiet hr₂) with hstopped | hlast
  · exact .inl hstopped.left
  rcases hsaved hr₂ with hstopped | hsaved
  · exact .inl hstopped.left.right.right
  obtain ⟨before, m, after, rfl, hactor, hafter, hwrite⟩ := does_persist hstore.does
  -- nothing is told while the file is written, so what was told last is still the last
  obtain ⟨hbefore, hrest⟩ := List.append_eq_nil_iff.1 ((told_append ..).symm.trans h₂.told_eq_nil)
  have htelling : told i uri wire (preparing ++ before) = told i uri wire preparing := by
    rw [told_append, hbefore, List.append_nil]
  have htold : told i uri (wire.along i (preparing ++ before))
      (m :: (after ++ (saving ++ concluding))) =
      told i uri ((wire.along i preparing).along i (before ++ m :: after)) saving ++
        told i uri (((wire.along i preparing).along i (before ++ m :: after)).along i saving)
          concluding := by
    rw [← List.cons_append, told_append, Wire.along_append, hrest, List.nil_append,
      ← Wire.along_append, told_append]
  have hown := hprepare.own_eq
  have hown₂ := hstore.own_eq.trans hown
  have hown₃ := hsave.own_eq.trans hown₂
  refine .inr ⟨final, preparing ++ before, m, after ++ (saving ++ concluding), by simp,
    ⟨⟨hactor.trans hown, hwrite, htelling ▸ h₁.tells, htelling ▸ hlast, ?_⟩, ?_, ?_⟩⟩
  · rw [htold]
    have hsent : tidingsOf uri ((wire.along i preparing).along i
        (before ++ m :: after)).written ≠ [] := by
      rw [tidingsOf_along, tidingsOf_along]
      exact List.ne_nil_of_mem
        (List.mem_append_left _ (List.mem_append_right _ (List.mem_of_getLast? hlast)))
    obtain ⟨content, hmem⟩ := hsaved hsent
    exact ⟨content, List.mem_append_left _ hmem⟩
  · intro tiding htiding
    rw [htold] at htiding
    rcases List.mem_append.1 htiding with htiding | htiding
    · exact ⟨_, .inl rfl, (h₃.tells tiding htiding).mono fun w hw => hw.left.right⟩
    · exact ⟨_, .inr rfl, (h₄.tells tiding htiding).mono fun w hw => hw.right.right⟩
  -- the file is left alone by all that follows the write
  · have hwaits := sameFile_waits hlinters
    intro m' hm'
    rcases List.mem_append.1 hm' with hm' | hm'
    · exact hothers m' (by simp [hm']) (hown ▸ hafter m' hm')
    rcases List.mem_append.1 hm' with hm' | hm'
    · exact hsave.keeps SameFile.refl (hwaits.saveAll sameFile_documents)
        (fun m hm hne => hothers m (by simp [hm]) (hown₂ ▸ hne)) m' hm'
    · exact hconclude.keeps SameFile.refl (hwaits.conclude sameFile_documents)
        (fun m hm hne => hothers m (by simp [hm]) (hown₃ ▸ hne)) m' hm'

/-! ### Agreement -/

/-- Of a path at which a text was put in a tree: it leads to the text, or to nothing. The latter is
ruled out if it led to something in the tree, or does not run through the link that it names. -/
structure LeadsTo (path : Path) (t : FileTree) (final : String) (w : World ε) : Prop where
  only : ∀ loc node, w.files.stat path = .ok (loc, node) →
    ∃ mode, node = .file (Utf8.encode final) mode
  back : t.LeadsBack path →
    ∃ loc mode, w.files.stat path = .ok (loc, .file (Utf8.encode final) mode)

/-- What a server may be told once the text was stored in a tree: that text, and that it was saved,
with the text unless the server does not want it or the path leads to nothing any more. -/
inductive Confirms (i : Nat) (path : Path) (t : FileTree) (S : World ε → Prop) (final : String) :
    Tiding → Prop
  | text : Confirms i path t S final (.text (some final))
  | saved : Confirms i path t S final (.saved (some final))
  | savedAlone {w : World ε} (hw : S w) (h : (w.connection i).wantsTextOnSave = false ∨
      ¬ t.LeadsBack path ∧ ∀ x, w.files.stat path ≠ .ok x) :
      Confirms i path t S final (.saved none)

structure Ordered (i : Nat) (uri : String) (path : Path) (a : Actor) (wire : Wire)
    (telling : List (Moment (World ε))) (m : Moment (World ε)) (saving : List (Moment (World ε)))
    (final : String) : Prop extends Puts i uri path a wire telling m saving final where
  confirms : ∀ tiding ∈ told i uri (wire.along i telling) (m :: saving),
    Confirms i path m.before.files (Seen saving) final tiding

theorem decode?_encode (content : String) : Utf8.decode? (Utf8.encode content) = some content := by
  rw [Utf8.decode?, Utf8.decode, encode_eq_bytesOf, Utf8.decodeChars_bytesOf]
  simp [Except.map, Except.toOption]

section

variable {a : Actor} {telling saving : List (Moment (World ε))} {m : Moment (World ε)}
  {final : String} {s₀ s₁ : World ε} {loc : Location} {bytes : List UInt8} {mode : Nat}

theorem Puts.leadsTo (h : Puts i uri path a wire telling m saving final)
    (hwf : m.before.files.WellFormed) (hsame : SameFile path m.after w) :
    LeadsTo path m.before.files final w := by
  obtain ⟨herror, hafter⟩ := Prod.mk.inj h.stores
  rw [← hafter] at hsame
  exact ⟨fun loc node hstat => FileTree.stat_replace hwf herror (hsame.symm.trans hstat),
    fun hback => by
      obtain ⟨loc, mode, hstat⟩ := FileTree.exists_stat_replace hwf herror hback
      exact ⟨loc, mode, hsame.trans hstat⟩⟩

theorem Puts.readText_eq (h : Puts i uri path a wire telling m saving final)
    (hwf : m.before.files.WellFormed) (hsame : SameFile path m.after w)
    (hread : w.files.readText path = .ok content) : content = final := by
  obtain ⟨loc, bytes, mode, hresolve, -, htext⟩ := FileTree.readText_eq_ok.1 hread
  obtain ⟨mode', hfile⟩ := (h.leadsTo hwf hsame).only loc _ (FileTree.stat_eq_ok.2 hresolve)
  cases hfile
  rw [decode?_encode] at htext
  exact (Option.some.inj htext).symm

theorem Settles.sameFile (h : Settles i uri path a wire telling m saving final)
    (hleads : Leads s₀ (telling ++ m :: saving) s₁) :
    SameFile path m.after s₁ ∧ ∀ w, Seen saving w → SameFile path m.after w := by
  obtain ⟨hlast, hseen⟩ := hleads.split.2.chain (G := SameFile path) SameFile.refl
    (fun _ _ _ h h' => h'.trans h) h.file
  refine ⟨hlast, ?_⟩
  rintro _ ⟨m', hm', rfl⟩
  exact (hseen m' hm').1

/-- What the server is told after the text was stored is this text. -/
theorem Settles.ordered (h : Settles i uri path a wire telling m saving final)
    (hleads : Leads s₀ (telling ++ m :: saving) s₁) (hwf : m.before.files.WellFormed) :
    Ordered i uri path a wire telling m saving final := by
  refine { h with confirms := fun tiding htiding => ?_ }
  obtain ⟨operation, hop, hspeaks⟩ := h.speaks tiding htiding
  have hsame := (h.sameFile hleads).2
  cases hspeaks with
  | given => simp at hop
  | read hw hread => exact h.readText_eq hwf (hsame _ hw) hread ▸ .text
  | saved hw hread => exact h.readText_eq hwf (hsame _ hw) hread ▸ .saved
  | @savedAlone _ v hw hnone =>
    refine .savedAlone hw (hnone.imp_right fun hread => ?_)
    have hnowhere : ∀ x, v.files.stat path ≠ .ok x :=
      fun x hstat => FileTree.readText_ne_notFound hstat hread
    refine ⟨fun hback => ?_, hnowhere⟩
    obtain ⟨loc, mode, hstat⟩ := (h.leadsTo hwf (hsame _ hw)).back hback
    exact hnowhere _ hstat

/-- The last text that the server was sent is the one that was stored. -/
theorem Ordered.lastText? (h : Ordered i uri path a wire telling m saving final) :
    lastText? (tidingsOf uri (wire.along i (telling ++ m :: saving)).written) = some final := by
  rw [tidingsOf_along, told_append, ← List.append_assoc]
  refine lastText?_append (fun tiding htiding content heq => ?_) (.inl ?_)
  · cases h.confirms tiding htiding with
    | text => exact (Tiding.text.inj heq).symm
    | saved => cases heq
    | savedAlone => cases heq
  · obtain ⟨front, hfront⟩ := List.getLast?_eq_some_iff.1 h.last
    rw [hfront, ← List.append_assoc]
    simp [Document.lastText?, Tiding.text?]

end

/-- A write that comes to a clean end was not seen to be cancelled on the way. -/
theorem not_stopped_of_clean {number : Nat} {child : Token} {outcome : Except Failure WriteReport}
    {first second : List (Moment (World ε))} {c₁ : Crew (World ε) Errand (Option Outcome)}
    (hlinters : s.LintersSpare i path child)
    (hcarry : Amid (errandRules ε i) c
      ((s.carryOut entry timeout child reached floors).run (WriteAct.performed s)) first c₁
      (.done outcome))
    (hfinish : Amid (errandRules ε i) c₁
      ((finishWrite number child token outcome).run (WriteAct.performed s)) second c'
      (.done (.ok r)))
    (hothers : ∀ m ∈ first ++ second, m.actor ≠ own c → m.before.StaysCancelled m.after)
    (hcancelled : r.cancelled = false) (hexpired : r.deadlineExpired = false) :
    ¬ SeenStopped child first := by
  intro hstopped
  obtain ⟨-, w, hw, hgoing⟩ := finishWrite_clean hfinish hcancelled hexpired
  have hown := hcarry.own_eq
  have hstays : ∀ m ∈ first ++ second, m.before.StaysCancelled m.after := by
    intro m hm
    rcases List.mem_append.1 hm with hm | hm
    · exact hcarry.keeps World.StaysCancelled.refl (cautious_steps hlinters).carryOut
        (fun m hm => hothers m (List.mem_append_left _ hm)) m hm
    · exact hfinish.keeps World.StaysCancelled.refl
        (keeps_finishWrite World.StaysCancelled.refl fun _ _ => World.staysCancelled_of_eq rfl)
        (fun m hm hne => hothers m (List.mem_append_right _ hm) (hown ▸ hne)) m hm
  rw [hstopped.isCancelled (hcarry.leads.append hfinish.leads) hstays hw] at hgoing
  cases hgoing

/-- When a write has come to a clean end, and nothing else has touched the file, the last text that
a server was sent is what is on disk: it was sent, then stored, and then the server was told that it
was saved. -/
theorem agrees_after_write {options : ConnectionOptions} {input output uptime : Nat}
    {process : Option Nat} {before : List (Moment (World ε))} {number : Nat} {child : Token}
    (hi : i < w.connections.length)
    (hnew : w.connection i = Connection.make options input output process uptime)
    (past : Run (errandRules ε i) (ofState w) before c)
    (hidle : ∀ k x p uri, c.clients[k]? = some (x, p) → x.uri? = some uri →
      Uri.ofPath entry.path = .ok uri → c.IsOver (.client k))
    (hlinters : s.LintersSpare i entry.path child)
    (run : Amid (errandRules ε i) c
      ((s.afterReaching entry timeout token number child reached floors).run (WriteAct.performed s))
      moments c' (.done (.ok r)))
    (hothers : ∀ m ∈ moments, m.actor ≠ own c →
      SameFile entry.path m.before m.after ∧ m.before.StaysCancelled m.after)
    (hwf : ∀ m ∈ moments, m.before.files.WellFormed)
    (hcancelled : r.cancelled = false) (hexpired : r.deadlineExpired = false)
    (hwarnings : r.warnings = [])
    (htarget : i ∈ reached.targets.filterMap Applicable.connection?) :
    ∃ uri final telling m saving, Uri.ofPath entry.path = .ok uri ∧
      moments = telling ++ m :: saving ∧
      Ordered i uri entry.path (own c) (Wire.along i ⟨[], none⟩ before) telling m saving final ∧
      lastText? (tidingsOf uri (Wire.along i ⟨[], none⟩ (before ++ moments)).written) =
        some final ∧
      LeadsTo entry.path m.before.files final c'.state := by
  obtain ⟨first, c₁, outcome, second, rfl, hcarry, hfinish⟩ := run.run_bind_inv
  -- a run that saw its cancellation or its deadline would not end as clean
  have hgoing := not_stopped_of_clean hlinters hcarry hfinish
    (fun m hm hne => (hothers m hm hne).2) hcancelled hexpired
  obtain ⟨rfl, -⟩ := finishWrite_clean hfinish hcancelled hexpired
  have hparts := carriesOut_of_run hcarry
  cases huri : Uri.ofPath entry.path with
  | error e => exact absurd (hparts.stopped huri htarget hwarnings) hgoing
  | ok uri =>
    have hrests : Resting i uri (Wire.along i ⟨[], none⟩ before) c := by
      have hrests := rests_of_run hi hnew past fun k x p hk hx => hidle k x p uri hk hx huri
      exact ⟨[], by simpa [Crew.join] using hrests⟩
    have hown := hcarry.own_eq
    obtain ⟨hrests₁, hstopped | ⟨final, telling, m, saving, rfl, hsettles⟩⟩ :=
      hrests.carryOut hlinters huri htarget hparts
        (fun m hm hne => (hothers m (List.mem_append_left _ hm) hne).1) hwarnings
    · exact absurd hstopped hgoing
    -- what follows the pipeline is silent, so the order stays as it is
    have hend : Keeps (Spares i)
        ((finishWrite number child token (.ok r)).run (WriteAct.performed s)) :=
      keeps_finishWrite Spares.refl fun _ _ => .of_eq (Nat.le_refl _) rfl
    have hsettles := hsettles.append (hrests₁.silent hend hfinish) <|
      hfinish.keeps SameFile.refl (keeps_finishWrite SameFile.refl fun _ _ => rfl)
        fun m hm hne => (hothers m (List.mem_append_right _ hm) (hown ▸ hne)).1
    have heq : telling ++ m :: saving ++ second = telling ++ m :: (saving ++ second) := by simp
    have hleads := hcarry.leads.append hfinish.leads
    rw [heq] at hleads hwf ⊢
    have hordered := hsettles.ordered hleads (hwf m (by simp))
    refine ⟨uri, final, telling, m, saving ++ second, rfl, rfl, hordered, ?_, ?_⟩
    · rw [Wire.along_append]
      exact hordered.lastText?
    · exact hordered.leadsTo (hwf m (by simp)) (hsettles.sameFile hleads).1

/-! ### A text that a linter ends with a newline -/

/-- Any linter formats by ending the text with a newline. -/
def newliner : Session Unit where
  root := ⟨"/"⟩
  settings := Settings.default
  resolver := { root := ⟨"/"⟩, servers := [], adapters := [] }
  connect _ _ _ := pure (.ok 0)
  linters _ _ :=
    ⟨true, fun _ _ => pure (.ok []), fun _ content _ => pure (.ok (content ++ "\n"))⟩

theorem lintersSpare_newliner (path : Path) (token : Token) :
    newliner.LintersSpare 0 path token where
  format _ _ _ _ := Keeps.pure _
  lint _ _ _ _ := Keeps.pure _

def textEntry : WriteEntry := ⟨⟨"/a.c"⟩, "text", ⟨true, false⟩⟩

def linterAndServer : Reached :=
  ⟨[.linter "newliner" (.registered "newliner"), .protocol "server" 0], []⟩

theorem serves_writer_errands : (errandRules Unit 0).Serves (Connection.writer 0) := .inl .writer

/-- A new connection, and its writer. -/
def withWriter : List (Moment (World Unit)) × Crew (World Unit) Errand (Option Outcome) :=
  Crew.play [.serve (Connection.writer 0) serves_writer_errands] ([], ofState Connection.alone)

def jobsDone : Choice (errandRules Unit 0) :=
  .outside endJobs fun _ => .of_eq (Nat.le_refl _) rfl

/-- All take their turns until the write is over. -/
def inTurn : List (Option (Choice (errandRules Unit 0))) :=
  (List.replicate 8
    (List.replicate 9 none ++ List.replicate 4 (some (.service 0)) ++ [some jobsDone])).flatten

def tidying : Program (World Unit) (Except Failure WriteReport) :=
  (newliner.afterReaching textEntry 0 Token.never 0 [0] linterAndServer []).run
    (WriteAct.performed newliner)

def tidied : WriteReport :=
  { WriteReport.start textEntry.path with
    bytes := 5, formatted := true, formatter := some "newliner" }

theorem agrees_after_write_newliner :
    ∃ moments c', Amid (errandRules Unit 0) withWriter.2 tidying moments c' (.done (.ok tidied)) ∧
      ∃ uri final telling m saving, Uri.ofPath textEntry.path = .ok uri ∧
        moments = telling ++ m :: saving ∧
        Ordered 0 uri textEntry.path (own withWriter.2) (Wire.along 0 ⟨[], none⟩ withWriter.1)
          telling m saving final ∧
        lastText? (tidingsOf uri (Wire.along 0 ⟨[], none⟩ (withWriter.1 ++ moments)).written) =
          some final ∧
        LeadsTo textEntry.path m.before.files final c'.state := by
  have hplay : (Amid.play inTurn ([], withWriter.2, tidying)).2.2.result? = some (.ok tidied) ∧
      ∀ m ∈ (Amid.play inTurn ([], withWriter.2, tidying)).1,
        (m.actor ≠ own withWriter.2 →
          m.after.files.stat textEntry.path = m.before.files.stat textEntry.path ∧
            ∀ n ∈ m.before.cancelled, n ∈ m.after.cancelled) ∧
        (m.before.files.get? []).any Node.isDir = true ∧ ∀ e ∈ m.before.files.entries,
          (m.before.files.get? e.1.dropLast).any Node.isDir = true := by
    decide +kernel
  obtain ⟨hover, hmoments⟩ := hplay
  have past : Run (errandRules Unit 0) (ofState Connection.alone) withWriter.1 withWriter.2 :=
    run_play _ .nil
  have run := Amid.of_play_done inTurn hover
  exact ⟨_, _, run, agrees_after_write (show 0 < Connection.alone.connections.length by decide) rfl
    past (fun k x p uri hk => nomatch hk) (lintersSpare_newliner _ _) run
    (fun m hm => (hmoments m hm).1)
    (fun m hm => FileTree.wellFormed_of_entries (hmoments m hm).2.1 (hmoments m hm).2.2)
    rfl rfl rfl (by decide)⟩

end LspClient.Session
