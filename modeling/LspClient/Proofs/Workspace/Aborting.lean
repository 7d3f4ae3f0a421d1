import LspClient.Proofs.FileTree.Rereading
import LspClient.Proofs.FileTree.Rewriting
import LspClient.Proofs.Workspace.Serial
import LspClient.Proofs.Write.Heeding

/-!
# Workspace edits that stop where they fail

What a request to edit files does when nobody else writes. Its parameters ask for edits of files
(`Asks`), or they are refused as a whole, by the first change among them that is no edit of a file
(`Refuses`). The edits are made one after another, each on the tree that the one before it left
(`MakesAll`). The first that cannot be made ends it: what was made before stays, and nothing else is
touched (`Concludes`).

`Makes` and `Fails` tell how the edits of one file go, step by step as they read the file, splice
its text and write it. That a written file is the only thing that has changed, and that a failed
write has changed nothing, is shown of the trees (`replace_of_file`).
-/

namespace LspClient

open Program

namespace FileTree

variable {t t' : FileTree} {p q : Path} {content : List UInt8} {l : Location}

/-! ### Files that are rewritten -/

/-- A file that was rewritten was no directory and no link to one, so all ways are as before. -/
theorem Rewrites.keepsWays (h : t.Rewrites p content t') : t'.KeepsWays t := by
  obtain ⟨target, there, node, -, -, -, -, hfile, hother⟩ := h.entry
  refine ⟨h.cwd.symm, fun l node hl hnot => ?_⟩
  by_cases heq : l = target
  · subst heq
    cases hfile.symm.trans hl
    cases hnot
  · rw [← hother l heq, hl]

theorem Rewrites.names (h : t.Rewrites p content t') (hl : t'.get? l ≠ t.get? l) :
    t.Names p l := by
  obtain ⟨target, _, _, hnames, -, -, -, -, hother⟩ := h.entry
  by_cases heq : l = target
  · rwa [heq]
  · exact absurd (hother l heq) hl

end FileTree

namespace Workspace

open FileTree

variable {ε α : Type} {w w' : World ε} {t t' t₁ t₂ : FileTree} {params : Option Json}
  {edit : WorkspaceEdit} {files done : List FileEdits} {e : FileEdits} {why : String}

/-! ### What the parameters ask for -/

/-- The change is one of edits of a file. -/
def IsEdit (change : Json) (file : FileEdits) : Prop :=
  change.get? "kind" = none ∧ WorkspaceEdit.decodeDocumentEdit change = .ok file

inductive IsNoEdit (change : Json) : WorkspaceEditError → Prop
  /-- An operation on a whole file. -/
  | resource (h : (change.get? "kind").isSome = true) : IsNoEdit change .resourceOperation
  | invalid {e : Json.DecodeError} (h : change.get? "kind" = none)
      (he : WorkspaceEdit.decodeDocumentEdit change = .error e) : IsNoEdit change (.invalidChange e)

inductive Asks (edit : WorkspaceEdit) : List FileEdits → Prop
  | documents {changes : List Json} {files : List FileEdits}
      (h : edit.documentChanges = some changes) (hall : List.Forall₂ IsEdit changes files) :
      Asks edit files
  | table (h : edit.documentChanges = none) : Asks edit (edit.changes.getD [])

/-- The first of the changes that are no edits. -/
inductive Refuses (edit : WorkspaceEdit) : WorkspaceEditError → Prop
  | intro {before after : List Json} {change : Json} {files : List FileEdits}
      {e : WorkspaceEditError} (h : edit.documentChanges = some (before ++ change :: after))
      (hbefore : List.Forall₂ IsEdit before files) (hchange : IsNoEdit change e) : Refuses edit e

theorem documentEdit_cases (change : Json) :
    (∃ file, WorkspaceEdit.documentEdit change = .ok file ∧ IsEdit change file) ∨
      ∃ e, WorkspaceEdit.documentEdit change = .error e ∧ IsNoEdit change e := by
  unfold WorkspaceEdit.documentEdit
  split
  · next hkind => exact .inr ⟨_, rfl, .resource hkind⟩
  · next hkind =>
    have hkind : change.get? "kind" = none := by simpa using hkind
    split
    · next file hfile => exact .inl ⟨file, rfl, hkind, hfile⟩
    · next e he => exact .inr ⟨_, rfl, .invalid hkind he⟩

theorem documentEdits_cases (changes : List Json) :
    (∃ files, changes.mapM WorkspaceEdit.documentEdit = .ok files ∧
      List.Forall₂ IsEdit changes files) ∨
    ∃ before change after files e, changes = before ++ change :: after ∧
      changes.mapM WorkspaceEdit.documentEdit = .error e ∧ List.Forall₂ IsEdit before files ∧
      IsNoEdit change e := by
  induction changes with
  | nil => exact .inl ⟨[], rfl, .nil⟩
  | cons change rest ih =>
    rw [List.mapM_cons]
    rcases documentEdit_cases change with ⟨file, heq, hedit⟩ | ⟨e, heq, hno⟩
    · rw [heq]
      rcases ih with ⟨files, hok, hall⟩ | ⟨before, c, after, files, e, rfl, herror, hall, hno⟩
      · rw [hok]
        exact .inl ⟨file :: files, rfl, .cons hedit hall⟩
      · rw [herror]
        exact .inr ⟨change :: before, c, after, file :: files, e, rfl, rfl, .cons hedit hall, hno⟩
    · rw [heq]
      exact .inr ⟨[], change, rest, [], e, rfl, rfl, .nil, hno⟩

theorem fileEdits_cases (edit : WorkspaceEdit) :
    (∃ files, edit.fileEdits = .ok files ∧ Asks edit files) ∨
      ∃ e, edit.fileEdits = .error e ∧ Refuses edit e := by
  unfold WorkspaceEdit.fileEdits
  split
  · next changes hchanges =>
    rcases documentEdits_cases changes with
      ⟨files, heq, hall⟩ | ⟨before, change, after, files, e, rfl, heq, hall, hno⟩
    · exact .inl ⟨files, heq, .documents hchanges hall⟩
    · exact .inr ⟨e, heq, .intro hchanges hall hno⟩
  · next hnone hchanges =>
    have hasks := Asks.table hnone
    rw [hchanges] at hasks
    exact .inl ⟨_, rfl, hasks⟩
  · next hnone hchanges =>
    have hasks := Asks.table hnone
    rw [hchanges] at hasks
    exact .inl ⟨[], rfl, hasks⟩

theorem IsNoEdit.not_isEdit {change : Json} {e : WorkspaceEditError} (h : IsNoEdit change e)
    (file : FileEdits) : ¬ IsEdit change file := by
  rintro ⟨hkind, hfile⟩
  cases h with
  | resource h => simp [hkind] at h
  | invalid _ he => cases hfile.symm.trans he

theorem exists_isEdit {changes : List Json} {change : Json}
    (h : List.Forall₂ IsEdit changes files) (hmem : change ∈ changes) :
    ∃ file, IsEdit change file := by
  induction h with
  | nil => cases hmem
  | cons hedit _ ih =>
    rcases List.mem_cons.1 hmem with rfl | hmem
    · exact ⟨_, hedit⟩
    · exact ih hmem

theorem Asks.exists_isEdit {changes : List Json} {change : Json} (h : Asks edit files)
    (hchanges : edit.documentChanges = some changes) (hmem : change ∈ changes) :
    ∃ file, IsEdit change file := by
  cases h with
  | documents h hall =>
    cases h.symm.trans hchanges
    exact Workspace.exists_isEdit hall hmem
  | table h => cases h.symm.trans hchanges

theorem Asks.not_refuses {e : WorkspaceEditError} (h : Asks edit files) : ¬ Refuses edit e := by
  rintro ⟨hchanges, -, hno⟩
  obtain ⟨file, hedit⟩ := h.exists_isEdit hchanges (List.mem_append_right _ (List.mem_cons_self ..))
  exact hno.not_isEdit file hedit

theorem rightUnique_isEdit : Relator.RightUnique IsEdit :=
  fun _ _ _ h h' => Except.ok.inj (h.2.symm.trans h'.2)

theorem Asks.unique {files' : List FileEdits} (h : Asks edit files) (h' : Asks edit files') :
    files = files' := by
  cases h with
  | documents h hall =>
    cases h' with
    | documents h' hall' =>
      cases h.symm.trans h'
      exact rightUnique_isEdit.forall₂ hall hall'
    | table h' => cases h.symm.trans h'
  | table h =>
    cases h' with
    | documents h' => cases h.symm.trans h'
    | table => rfl

/-- The table of a value whose keys are in order is in the order of its URIs. -/
theorem ascends_of_decode {p : Json} {request : EditRequest} {table : List FileEdits}
    (h : EditRequest.decode p = .ok request) (hp : p.Ordered)
    (htable : request.edit.changes = some table) : Json.Ascends table := by
  obtain ⟨ms, hbuild, hms⟩ := Json.ordered_of_record h hp
  obtain ⟨_, -, hbuild⟩ := Json.of_bind_ok hbuild
  obtain ⟨edit, hedit, hbuild⟩ := Json.of_bind_ok hbuild
  cases hbuild
  obtain ⟨v, hv, hedit⟩ := Json.exists_of_required hedit
  obtain ⟨ms', hbuild', hms'⟩ := Json.ordered_of_record hedit (hms _ _ hv)
  obtain ⟨changes, hchanges, hbuild'⟩ := Json.of_bind_ok hbuild'
  obtain ⟨_, -, hbuild'⟩ := Json.of_bind_ok hbuild'
  cases hbuild'
  obtain rfl : changes = some table := htable
  obtain ⟨v', hv', hdecode⟩ := Json.exists_of_optional hchanges
  exact Json.ascends_of_table hdecode (hms' _ _ hv')

/-! ### Edits of one file -/

/-- The edits of a file can be made, and leave the second tree. -/
inductive Makes (t : FileTree) : FileEdits → FileTree → Prop
  | stays {uri : String} {edits : List TextEdit} {path : Path} {text : String}
      (hpath : Uri.toPath? uri = some path) (hread : t.readText path = .ok text)
      (hsame : applyEdits text edits = .ok text) : Makes t (uri, edits) t
  | writes {uri : String} {edits : List TextEdit} {path : Path} {text updated : String}
      {t' : FileTree} (hpath : Uri.toPath? uri = some path) (hread : t.readText path = .ok text)
      (hupdated : applyEdits text edits = .ok updated) (hne : updated ≠ text)
      (hwrite : t.replace path (Utf8.encode updated) = ⟨t', none⟩) : Makes t (uri, edits) t'

/-- The edits of a file cannot be made, and why. -/
inductive Fails (t : FileTree) : FileEdits → String → FileTree → Prop
  | notFile {uri : String} {edits : List TextEdit} (hpath : Uri.toPath? uri = none) :
      Fails t (uri, edits) s!"not a file URI: {uri}" t
  | unreadable {uri : String} {edits : List TextEdit} {path : Path} {e : FileError}
      (hpath : Uri.toPath? uri = some path) (hread : t.readText path = .error e) :
      Fails t (uri, edits) s!"{path}: {e.message}" t
  | overlapping {uri : String} {edits : List TextEdit} {path : Path} {text : String}
      {overlap : Overlap} (hpath : Uri.toPath? uri = some path)
      (hread : t.readText path = .ok text) (hedits : applyEdits text edits = .error overlap) :
      Fails t (uri, edits) s!"{path}: {overlap.message}" t
  | unwritable {uri : String} {edits : List TextEdit} {path : Path} {text updated : String}
      {e : FileError} {t' : FileTree} (hpath : Uri.toPath? uri = some path)
      (hread : t.readText path = .ok text) (hupdated : applyEdits text edits = .ok updated)
      (hne : updated ≠ text) (hwrite : t.replace path (Utf8.encode updated) = ⟨t', some e⟩) :
      Fails t (uri, edits) s!"{path}: {e.message}" t'

/-- What is left by the edits of a file when nobody else writes, and what went wrong. -/
def edited (t : FileTree) : FileEdits → FileTree × Option String
  | (uri, edits) =>
    match Uri.toPath? uri with
    | none => (t, some s!"not a file URI: {uri}")
    | some path =>
      match t.readText path with
      | .error e => (t, some s!"{path}: {e.message}")
      | .ok text =>
        match applyEdits text edits with
        | .error overlap => (t, some s!"{path}: {overlap.message}")
        | .ok updated =>
          if updated = text then (t, none)
          else
            match t.replace path (Utf8.encode updated) with
            | ⟨t', none⟩ => (t', none)
            | ⟨t', some e⟩ => (t', some s!"{path}: {e.message}")

theorem Makes.edited (h : Makes t e t') : edited t e = (t', none) := by
  cases h with
  | stays hpath hread hsame => simp [Workspace.edited, hpath, hread, hsame]
  | writes hpath hread hupdated hne hwrite =>
    simp [Workspace.edited, hpath, hread, hupdated, hne, hwrite]

theorem Fails.edited (h : Fails t e why t') : edited t e = (t', some why) := by
  cases h with
  | notFile hpath => simp [Workspace.edited, hpath]
  | unreadable hpath hread => simp [Workspace.edited, hpath, hread]
  | overlapping hpath hread hedits => simp [Workspace.edited, hpath, hread, hedits]
  | unwritable hpath hread hupdated hne hwrite =>
    simp [Workspace.edited, hpath, hread, hupdated, hne, hwrite]

theorem Makes.unique (h : Makes t e t₁) (h' : Makes t e t₂) : t₁ = t₂ :=
  congrArg Prod.fst (h.edited.symm.trans h'.edited)

theorem Makes.not_fails (h : Makes t e t₁) : ¬ Fails t e why t₂ := by
  intro h'
  cases h.edited.symm.trans h'.edited

/-- Edits of a file that can be made rewrite it, or leave the tree. -/
theorem Makes.rewrites (h : Makes t e t') (hwf : t.WellFormed) : t' = t ∨
    ∃ path text, Uri.toPath? e.1 = some path ∧ t.Rewrites path (Utf8.encode text) t' := by
  cases h with
  | stays => exact .inl rfl
  | @writes _ _ path _ updated _ hpath hread _ _ hwrite =>
    obtain ⟨l, content, mode, hresolve, -⟩ := readText_eq_ok.1 hread
    rcases replace_of_file hwf hresolve (Utf8.encode updated) with ⟨t'', hok, hdone⟩ | ⟨_, _, he, -⟩
    · cases hwrite.symm.trans hok
      exact .inr ⟨path, updated, hpath, hdone⟩
    · cases hwrite.symm.trans he

/-- Edits of a file that cannot be made change nothing. -/
theorem Fails.alike (h : Fails t e why t') (hwf : t.WellFormed) : t.Alike t' := by
  cases h with
  | notFile | unreadable | overlapping => exact .refl t
  | @unwritable _ _ _ _ updated _ _ _ hread _ _ hwrite =>
    obtain ⟨l, content, mode, hresolve, -⟩ := readText_eq_ok.1 hread
    rcases replace_of_file hwf hresolve (Utf8.encode updated) with ⟨_, hok, -⟩ | ⟨t'', _, he, hsame⟩
    · cases hwrite.symm.trans hok
    · cases hwrite.symm.trans he
      exact hsame

theorem Makes.wellFormed (h : Makes t e t') (hwf : t.WellFormed) : t'.WellFormed := by
  rcases h.rewrites hwf with rfl | ⟨path, text, -, hdone⟩
  · exact hwf
  · exact hdone.wellFormed hwf

/-! ### Edits of files, one after another -/

/-- All of the edits can be made, each on what the one before it left. -/
inductive MakesAll : FileTree → List FileEdits → FileTree → Prop
  | nil {t : FileTree} : MakesAll t [] t
  | cons {t t₁ t' : FileTree} {e : FileEdits} {files : List FileEdits} (h : Makes t e t₁)
      (rest : MakesAll t₁ files t') : MakesAll t (e :: files) t'

theorem MakesAll.split {rest : List FileEdits} (h : MakesAll t (done ++ rest) t') :
    ∃ t₁, MakesAll t done t₁ ∧ MakesAll t₁ rest t' := by
  induction done generalizing t with
  | nil => exact ⟨t, .nil, h⟩
  | cons e done ih =>
    cases h with
    | cons he hrest =>
      obtain ⟨t₁, hdone, hrest⟩ := ih hrest
      exact ⟨t₁, .cons he hdone, hrest⟩

theorem MakesAll.unique (h : MakesAll t files t₁) (h' : MakesAll t files t₂) : t₁ = t₂ := by
  induction h with
  | nil =>
    cases h'
    rfl
  | cons he _ ih =>
    cases h' with
    | cons he' hrest' =>
      cases he.unique he'
      exact ih hrest'

/-- Where the edits of a file fail, those of all files cannot be made. -/
theorem MakesAll.not_of_fails {next : FileEdits} {rest : List FileEdits}
    (h : MakesAll t done t₁) (hfails : Fails t₁ next why t₂) :
    ¬ MakesAll t (done ++ next :: rest) t' := by
  intro hall
  obtain ⟨t₁', hdone, hrest⟩ := hall.split
  cases h.unique hdone
  cases hrest with
  | cons hnext _ => exact hnext.not_fails hfails

theorem MakesAll.wellFormed (h : MakesAll t files t') (hwf : t.WellFormed) : t'.WellFormed := by
  induction h with
  | nil => exact hwf
  | cons he _ ih => exact ih (he.wellFormed hwf)

/-- What is different is named by the path of one of the files. -/
theorem MakesAll.names (h : MakesAll t files t') (hwf : t.WellFormed) {l : Location}
    (hl : t'.get? l ≠ t.get? l) :
    ∃ e ∈ files, ∃ path, Uri.toPath? e.1 = some path ∧ t.Names path l := by
  induction h with
  | nil => exact absurd rfl hl
  | @cons t t₁ t' e files he hrest ih =>
    rcases he.rewrites hwf with rfl | ⟨path, text, hpath, hdone⟩
    · obtain ⟨e', hmem, hnamed⟩ := ih hwf hl
      exact ⟨e', List.mem_cons_of_mem _ hmem, hnamed⟩
    · by_cases hfirst : t₁.get? l = t.get? l
      · obtain ⟨e', hmem, path', hpath', hnames⟩ := ih (hdone.wellFormed hwf) (hfirst ▸ hl)
        exact ⟨e', List.mem_cons_of_mem _ hmem, path', hpath', hnames.mono hdone.keepsWays⟩
      · exact ⟨e, List.mem_cons_self .., path, hpath, hdone.names hfirst⟩

/-! ### Runs -/

/-- Nobody else writes a file. -/
def SameFiles (w w' : World ε) : Prop := w'.files = w.files

theorem ends_job {step : World ε → α × World ε} {a : α}
    (h : (Work.inBackground step).Ends SameFiles w w' a) :
    ∃ w₀ : World ε, w₀.files = w.files ∧ step w₀ = (a, w') := by
  obtain ⟨w₁, w₀, hbegun, hdone, hstep⟩ := Session.ends_inBackground h
  exact ⟨w₀, hdone.trans hbegun, hstep⟩

theorem ends_readText {path : Path} {r : Except FileError String}
    (h : (Work.inBackground (readText path)).Ends SameFiles w w' r) :
    w.files.readText path = r ∧ w'.files = w.files := by
  obtain ⟨w₀, hsame, hstep⟩ := ends_job h
  cases hstep
  exact ⟨by rw [hsame], hsame⟩

theorem ends_writeText {path : Path} {text : String} {failure : Option FileError}
    (h : (Work.inBackground (writeText path text)).Ends SameFiles w w' failure) :
    w.files.replace path (Utf8.encode text) = ⟨w'.files, failure⟩ := by
  obtain ⟨w₀, hsame, hstep⟩ := ends_job h
  obtain ⟨hfailure, hw'⟩ := Prod.mk.inj hstep
  rw [← hsame, ← hfailure, ← hw']

theorem ends_editFile {uri : String} {edits : List TextEdit} {r : Option String}
    (h : (editFile uri edits).Ends SameFiles w w' r) :
    (r = none ∧ Makes w.files (uri, edits) w'.files) ∨
      ∃ why, r = some why ∧ Fails w.files (uri, edits) why w'.files := by
  -- in the order of the steps: the first that fails says why, and nothing is written before it
  unfold editFile at h
  split at h
  · next hpath =>
    obtain ⟨rfl, rfl⟩ := h.pure_inv
    exact .inr ⟨_, rfl, .notFile hpath⟩
  next path hpath =>
  obtain ⟨w₁, content, hread, h⟩ := h.bind_inv
  obtain ⟨hread, hsame⟩ := ends_readText hread
  split at h
  · next e =>
    obtain ⟨rfl, rfl⟩ := h.pure_inv
    rw [hsame]
    exact .inr ⟨_, rfl, .unreadable hpath hread⟩
  next text =>
  split at h
  · next overlap hedits =>
    obtain ⟨rfl, rfl⟩ := h.pure_inv
    rw [hsame]
    exact .inr ⟨_, rfl, .overlapping hpath hread hedits⟩
  next updated hupdated =>
  split at h
  · next heq =>
    obtain ⟨rfl, rfl⟩ := h.pure_inv
    subst heq
    rw [hsame]
    exact .inl ⟨rfl, .stays hpath hread hupdated⟩
  next hne =>
  obtain ⟨w₂, failure, hwrite, h⟩ := h.bind_inv
  have hwrite := ends_writeText hwrite
  rw [hsame] at hwrite
  cases failure with
  | some e =>
    obtain ⟨rfl, rfl⟩ := h.pure_inv
    exact .inr ⟨_, rfl, .unwritable hpath hread hupdated hne hwrite⟩
  | none =>
    obtain ⟨rfl, rfl⟩ := h.pure_inv
    exact .inl ⟨rfl, .writes hpath hread hupdated hne hwrite⟩

/-- How the edits of files ended: all of them were made, or one could not be after those before it
were. -/
inductive Made (t : FileTree) (files : List FileEdits) : Option String → FileTree → Prop
  | all {t' : FileTree} (h : MakesAll t files t') : Made t files none t'
  | upTo {done rest : List FileEdits} {next : FileEdits} {t₁ t' : FileTree} {why : String}
      (h : files = done ++ next :: rest) (hdone : MakesAll t done t₁)
      (hfails : Fails t₁ next why t') : Made t files (some why) t'

theorem ends_editFiles {r : Option String} (h : (editFiles files).Ends SameFiles w w' r) :
    Made w.files files r w'.files := by
  induction files generalizing w with
  | nil =>
    obtain ⟨rfl, rfl⟩ := h.pure_inv
    exact .all .nil
  | cons e rest ih =>
    obtain ⟨uri, edits⟩ := e
    obtain ⟨w₁, failure, hfirst, h⟩ := h.bind_inv
    rcases ends_editFile hfirst with ⟨rfl, hmakes⟩ | ⟨why, rfl, hfails⟩
    · cases ih h with
      | all hall => exact .all (.cons hmakes hall)
      | upTo heq hdone hfails => exact .upTo (by rw [heq]; rfl) (.cons hmakes hdone) hfails
    · obtain ⟨rfl, rfl⟩ := h.pure_inv
      exact .upTo rfl .nil hfails

/-! ### The answer -/

/-- What became of a request, and what it was answered. -/
inductive Concludes (params : Option Json) (t t' : FileTree) : Except ResponseError Json → Prop
  | missing (hparams : params = none) (h : t' = t) :
      Concludes params t t' (.error (ResponseError.invalidParams "missing params"))
  | undecoded {p : Json} {e : Json.DecodeError} (hparams : params = some p)
      (hdecode : EditRequest.decode p = .error e) (h : t' = t) :
      Concludes params t t' (.error (ResponseError.invalidParams e.message))
  | refused {p : Json} {request : EditRequest} {e : WorkspaceEditError} (hparams : params = some p)
      (hdecode : EditRequest.decode p = .ok request) (hrefuses : Refuses request.edit e)
      (h : t' = t) : Concludes params t t' (.ok (EditRequest.reply (some e.message)))
  | edits {p : Json} {request : EditRequest} {files : List FileEdits} {failure : Option String}
      (hparams : params = some p) (hdecode : EditRequest.decode p = .ok request)
      (hasks : Asks request.edit files) (hmade : Made t files failure t') :
      Concludes params t t' (.ok (EditRequest.reply failure))

theorem concludes_of_ends {r : Except ResponseError Json}
    (h : (applyEdit params).Ends SameFiles w w' r) : Concludes params w.files w'.files r := by
  unfold applyEdit at h
  cases params with
  | none =>
    obtain ⟨rfl, rfl⟩ := h.pure_inv
    exact .missing rfl rfl
  | some p =>
    unfold EditRequest.ofParams at h
    dsimp only at h
    cases hdecode : EditRequest.decode p with
    | error e =>
      rw [hdecode] at h
      obtain ⟨rfl, rfl⟩ := h.pure_inv
      exact .undecoded rfl hdecode rfl
    | ok request =>
      rw [hdecode] at h
      dsimp only [Except.mapError] at h
      rcases fileEdits_cases request.edit with ⟨files, heq, hasks⟩ | ⟨e, heq, hrefuses⟩
      · rw [heq] at h
        obtain ⟨w₁, failure, hfiles, h⟩ := h.bind_inv
        obtain ⟨rfl, rfl⟩ := h.pure_inv
        exact .edits rfl hdecode hasks (ends_editFiles hfiles)
      · rw [heq] at h
        obtain ⟨rfl, rfl⟩ := h.pure_inv
        exact .refused rfl hdecode hrefuses rfl

/-- The parameters ask for edits of these files, in this order. -/
def AsksFor (params : Option Json) (files : List FileEdits) : Prop :=
  ∃ p request, params = some p ∧ EditRequest.decode p = .ok request ∧ Asks request.edit files

theorem AsksFor.unique {files' : List FileEdits} (h : AsksFor params files)
    (h' : AsksFor params files') : files = files' := by
  obtain ⟨p, request, rfl, hdecode, hasks⟩ := h
  obtain ⟨_, _, heq, hdecode', hasks'⟩ := h'
  cases heq
  cases hdecode.symm.trans hdecode'
  exact hasks.unique hasks'

/-- The parameters are those of a message that was read. -/
def Received (params : Option Json) : Prop :=
  ∃ bytes frame, Json.parseBytes bytes = some frame ∧ frame.get? "params" = params

theorem ordered_of_received {p : Json} (h : Received params) (hp : params = some p) :
    p.Ordered := by
  obtain ⟨bytes, frame, hparse, rfl⟩ := h
  exact Json.ordered_of_get? hp (Json.ordered_of_parseBytes hparse)

/-- Somebody who was refused asked for nothing that can be carried out. -/
theorem Concludes.cases {r : Except ResponseError Json} (h : Concludes params t t' r) :
    (r ≠ applied ∧ t' = t ∧ ∀ files, ¬ AsksFor params files) ∨
      ∃ files failure, AsksFor params files ∧ Made t files failure t' ∧
        r = .ok (EditRequest.reply failure) := by
  cases h with
  | missing hparams h =>
    refine .inl ⟨nofun, h, ?_⟩
    rintro files ⟨p, request, heq, -⟩
    cases hparams.symm.trans heq
  | undecoded hparams hdecode h =>
    refine .inl ⟨nofun, h, ?_⟩
    rintro files ⟨p, request, heq, hdecode', -⟩
    cases hparams.symm.trans heq
    cases hdecode.symm.trans hdecode'
  | refused hparams hdecode hrefuses h =>
    refine .inl ⟨reply_some_ne _, h, ?_⟩
    rintro files ⟨p, request, heq, hdecode', hasks⟩
    cases hparams.symm.trans heq
    cases hdecode.symm.trans hdecode'
    exact hasks.not_refuses hrefuses
  | edits hparams hdecode hasks hmade =>
    exact .inr ⟨_, _, ⟨_, _, hparams, hdecode, hasks⟩, hmade, rfl⟩

/-- A request is carried out up to the first of its edits that cannot be made, and tells. -/
structure StopsWhereItFails (params : Option Json) (t t' : FileTree)
    (r : Except ResponseError Json) : Prop where
  concludes : Concludes params t t' r
  applied_iff : r = applied ↔ ∃ files t'', AsksFor params files ∧ MakesAll t files t''
  /-- A change that is no edit of a file refuses all of them, wherever it stands. -/
  refused : ∀ p request changes, params = some p → EditRequest.decode p = .ok request →
    request.edit.documentChanges = some changes →
    (∃ change ∈ changes, ∀ file, ¬ IsEdit change file) → t' = t ∧ r ≠ applied
  /-- A table is gone through in the order of its URIs, if its keys are in order. Those of whatever
  is received are. -/
  ascends : ∀ p request files, params = some p → p.Ordered ∨ Received params →
    EditRequest.decode p = .ok request → request.edit.documentChanges = none →
    Asks request.edit files → Json.Ascends files
  rewrites : ∀ done e t₁ t₂, MakesAll t done t₁ → Makes t₁ e t₂ → t₂ = t₁ ∨
    ∃ path text, Uri.toPath? e.1 = some path ∧ t₁.Rewrites path (Utf8.encode text) t₂
  /-- The first edits that cannot be made leave what those before them left. -/
  keeps : ∀ done e t₁ why, MakesAll t done t₁ → Fails t₁ e why t' → t₁.Alike t'
  names : ∀ l, t'.get? l ≠ t.get? l → ∃ files, AsksFor params files ∧ ∃ e ∈ files, ∃ path,
    Uri.toPath? e.1 = some path ∧ t.Names path l

theorem stopsWhereItFails_of_concludes {r : Except ResponseError Json} (hwf : t.WellFormed)
    (h : Concludes params t t' r) : StopsWhereItFails params t t' r := by
  refine ⟨h, ⟨fun hr => ?_, ?_⟩, ?_, ?_, fun done e t₁ t₂ hdone he => ?_,
    fun done e t₁ why hdone hfails => ?_, fun l hl => ?_⟩
  -- the request is refused as a whole, or its entries are made up to the first failure
  · rcases h.cases with ⟨hne, -⟩ | ⟨files, failure, hasks, hmade, hreply⟩
    · exact absurd hr hne
    · cases hmade with
      | all hall => exact ⟨files, t', hasks, hall⟩
      | upTo => exact absurd (hreply.symm.trans hr) (reply_some_ne _)
  · rintro ⟨files, t'', hasks, hall⟩
    rcases h.cases with ⟨-, -, hno⟩ | ⟨files', failure, hasks', hmade, hreply⟩
    · exact absurd hasks (hno files)
    · cases hasks.unique hasks'
      cases hmade with
      | all => exact hreply
      | upTo heq hdone hfails =>
        subst heq
        exact absurd hall (hdone.not_of_fails hfails)
  · rintro p request changes rfl hdecode hchanges ⟨change, hmem, hno⟩
    rcases h.cases with ⟨hne, hsame, -⟩ | ⟨files, failure, ⟨_, _, heq, hdecode', hasks⟩, -⟩
    · exact ⟨hsame, hne⟩
    · cases heq
      cases hdecode.symm.trans hdecode'
      obtain ⟨file, hedit⟩ := hasks.exists_isEdit hchanges hmem
      exact absurd hedit (hno file)
  · intro p request files hparams horder hdecode hnone hasks
    have hp : p.Ordered := horder.elim id fun hreceived => ordered_of_received hreceived hparams
    cases hasks.unique (.table hnone)
    cases htable : request.edit.changes with
    | none => exact .nil
    | some table => exact ascends_of_decode hdecode hp htable
  · exact he.rewrites (hdone.wellFormed hwf)
  · exact hfails.alike (hdone.wellFormed hwf)
  · rcases h.cases with ⟨-, hsame, -⟩ | ⟨files, failure, hasks, hmade, -⟩
    · rw [hsame] at hl
      exact absurd rfl hl
    · refine ⟨files, hasks, ?_⟩
      cases hmade with
      | all hall => exact hall.names hwf hl
      | upTo heq hdone hfails =>
        rw [(hfails.alike (hdone.wellFormed hwf)).get?] at hl
        obtain ⟨e, hmem, hnamed⟩ := hdone.names hwf hl
        exact ⟨e, heq ▸ List.mem_append_left _ hmem, hnamed⟩

/-! ### Every request comes to an end -/

/-- Nothing is waited for but work in the background. -/
def editingTerms (ε : Type) : Terms (World ε) where
  Goes := World.Goes
  Stopped _ := True
  Lets := World.Lets
  Excuses _ := False
  goes_refl := .refl
  goes_trans := .trans
  lets_refl _ := .nothing

theorem heedful_applyEdit : (applyEdit params : Work ε _).Heedful (editingTerms ε) :=
  (Work.heedful_editParts (fun _ _ => .rfl) fun _ _ h => h).applyEdit

/-- Whenever a request ends it has stopped where it failed, and until then it can go on. -/
theorem applyEdit_stopsWhereItFails (params : Option Json) (w : World ε)
    (hwf : w.files.WellFormed) :
    (∀ w' r, (applyEdit params).Ends SameFiles w w' r →
      StopsWhereItFails params w.files w'.files r) ∧
    ∀ q w', Reaches World.Goes (applyEdit params) w q w' → q.result? = none →
      ∃ w'', w'.Lets w'' ∧ q.canMove w'' = true := by
  refine ⟨fun w' r h => stopsWhereItFails_of_concludes hwf (concludes_of_ends h), ?_⟩
  intro q w' hreach hgoing
  have hheeds : q.Heeds (editingTerms ε) w' := (heedful_applyEdit w).reaches hreach
  rcases hheeds.goes_on trivial hgoing with hgo | ⟨_, _, hexcused, -⟩
  · exact hgo
  · exact hexcused.elim

/-- Edits of the first file, of one that is not there, and of the second. -/
def threeEdits : Option Json :=
  let start := Json.object [("line", .nat 0), ("character", .nat 0)]
  let stop := Json.object [("line", .nat 0), ("character", .nat 2)]
  let edit := Json.object [("range", .object [("start", start), ("end", stop)]),
    ("newText", .str "ne")]
  let change (uri : String) : Json :=
    .object [("textDocument", .object [("uri", .str uri)]), ("edits", .arr [edit])]
  some (.object [("edit", .object [("documentChanges", .arr [change "file:///f",
    change "file:///h", change "file:///g"])])])

def reasonOf (r : Except ResponseError Json) : Option String :=
  (r.toOption.bind fun answer => answer.get? "failureReason").bind Json.str?

theorem applyEdit_stopsWhereItFails_twoFiles :
    ∃ w' r, (applyEdit threeEdits).Ends SameFiles inWorld w' r ∧
      reasonOf r = some "/h: No such file or directory (os error 2)" ∧
      w'.files.contentOf ["f"] = some (Utf8.encode "next") ∧
      w'.files.contentOf ["g"] = some (Utf8.encode "more") ∧
      StopsWhereItFails threeEdits inWorld.files w'.files r := by
  have hplay : (playOut settle 100 inWorld (applyEdit threeEdits)).map (fun e =>
      (reasonOf e.2, e.1.files.contentOf ["f"], e.1.files.contentOf ["g"])) =
      some (some "/h: No such file or directory (os error 2)",
        some (Utf8.encode "next"), some (Utf8.encode "more")) := by
    decide +kernel
  obtain ⟨⟨w', r⟩, hend, heq⟩ := Option.map_eq_some_iff.1 hplay
  obtain ⟨hreason, hf, hg⟩ : reasonOf r = _ ∧ w'.files.contentOf ["f"] = _ ∧
      w'.files.contentOf ["g"] = _ := by simpa using heq
  have hwf : inWorld.files.WellFormed :=
    wellFormed_of_entries (by decide +kernel) (by decide +kernel)
  have hsame (w : World Unit) : SameFiles w (settle w) := rfl
  have hends := ends_of_playOut hsame hend
  exact ⟨w', r, hends, hreason, hf, hg,
    (applyEdit_stopsWhereItFails threeEdits inWorld hwf).1 w' r hends⟩

end Workspace

end LspClient
