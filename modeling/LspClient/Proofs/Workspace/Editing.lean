import LspClient.Proofs.FileTree.Contents
import LspClient.Proofs.Program.Crew
import LspClient.Workspace.Handler

/-!
# Workspace edits at work

What a request to edit files does to their contents, step by step. It has a plan: the files it is to
edit, and how. Each of them it reads, and then, if its text is to change, writes; what it has read
it holds until then. A request that says it was applied has carried out all of its plan
(`follows_applyEdit`).

The requests are those whose paths name regular files of the tree there was at first, by
themselves; whatever is done to contents meanwhile, the paths go on naming them.
-/

namespace LspClient.Workspace

open Program
open FileTree

variable {ε α : Type} {t₀ : FileTree} {w w' : World ε}

/-! ### Plans -/

/-- The files to be edited, by their locations, in order. -/
abbrev Plan := List (Location × List TextEdit)

/-- The plan for edits of files, if all of them are regular files of the tree. -/
def planOf (t : FileTree) : List FileEdits → Option Plan
  | [] => some []
  | (uri, edits) :: rest => do
    let path ← Uri.toPath? uri
    let l ← t.fileAt? path
    let plan ← planOf t rest
    return (l, edits) :: plan

/-- The edits of files that a request asks for. -/
def filesOf? (params : Option Json) : Option (List FileEdits) :=
  (EditRequest.ofParams params).toOption.bind fun request => request.edit.fileEdits.toOption

/-- A request to edit regular files of a tree. -/
structure PlannedEdit (t : FileTree) where
  params : Option Json
  plan : Plan
  planned : (filesOf? params).bind (planOf t) = some plan

def Plan.on (plan : Plan) (l : Location) : List (List TextEdit) :=
  (plan.filter fun e => e.1 = l).map (·.2)

/-- The bytes of a file after the edits of a request; they stay where the text does. -/
def editBytes (bytes : List UInt8) (edits : List TextEdit) : Option (List UInt8) := do
  let text ← Utf8.decode? bytes
  let updated ← (applyEdits text edits).toOption
  return if updated = text then bytes else Utf8.encode updated

/-! ### Stages -/

/-- How far a request has come: what it has carried out of its plan, what is to come, and the text
that it has read of the file that comes next. -/
structure Progress where
  made : Plan
  todo : Plan
  holds : Option String

def HasText (t : FileTree) (l : Location) (text : String) : Prop :=
  ∃ bytes, t.contentOf l = some bytes ∧ Utf8.decode? bytes = some text

inductive Edits (w w' : World ε) : Progress → Progress → Prop
  | still {g : Progress} (h : w.files.SameContents w'.files) : Edits w w' g g
  | drop {made todo : Plan} {holds : Option String} (h : w.files.SameContents w'.files) :
      Edits w w' ⟨made, todo, holds⟩ ⟨made, todo, none⟩
  | read {made todo : Plan} {l : Location} {edits : List TextEdit} {text : String}
      (h : w.files.SameContents w'.files) (htext : HasText w.files l text) :
      Edits w w' ⟨made, (l, edits) :: todo, none⟩ ⟨made, (l, edits) :: todo, some text⟩
  /-- The text of the file is to stay. -/
  | pass {made todo : Plan} {l : Location} {edits : List TextEdit} {text : String}
      (h : w.files.SameContents w'.files) (htext : HasText w.files l text)
      (hsame : applyEdits text edits = .ok text) :
      Edits w w' ⟨made, (l, edits) :: todo, none⟩ ⟨made ++ [(l, edits)], todo, none⟩
  | write {made todo : Plan} {l : Location} {edits : List TextEdit} {text updated : String}
      (h : w.files.Rewritten l (Utf8.encode updated) w'.files)
      (hupdated : applyEdits text edits = .ok updated) (hne : updated ≠ text) :
      Edits w w' ⟨made, (l, edits) :: todo, some text⟩ ⟨made ++ [(l, edits)], todo, none⟩

theorem Edits.stands {g g' : Progress} (h : Edits w w' g g') : w.files.Stands w'.files := by
  cases h with
  | still h => exact h.stands
  | drop h => exact h.stands
  | read h => exact h.stands
  | pass h => exact h.stands
  | write h => exact h.stands

/-- The paths of requests go on naming the files of the tree `t₀`. -/
def editing (ε : Type) (t₀ : FileTree) : Discipline (World ε) Progress where
  Inv w := t₀.Stands w.files
  Acts g w w' g' := Edits w w' g g'
  idle := ⟨[], [], none⟩
  inv_of_acts h hacts := h.trans hacts.stands
  acts_self h := .still (.refl h.wellFormed)

/-! ### Programs -/

theorem sameContents_of_files_eq (h : t₀.Stands w.files) (heq : w'.files = w.files) :
    w.files.SameContents w'.files := by
  rw [heq]
  exact .refl h.wellFormed

/-- Work in the background is one step, once it is done. -/
theorem follows_inBackground {step : World ε → α × World ε} {g : Progress}
    {Q : Progress → α → Prop} (h : ∀ w, t₀.Stands w.files →
      ∃ g', Edits w (step w).2 g g' ∧ Q g' (step w).1) :
    Follows (editing ε t₀) (Work.inBackground step) g Q := by
  have hbegin : Follows (editing ε t₀) (act World.beginJob) g fun g' _ => g' = g :=
    Follows.act fun w hinv => ⟨g, .still (sameContents_of_files_eq hinv rfl), rfl⟩
  refine hbegin.bind fun g' job hg' => ?_
  subst hg'
  refine Follows.await fun w a w' hinv hs => ?_
  obtain ⟨-, hs⟩ := Option.ite_none_right_eq_some.1 hs
  have hstep : step w = (a, w') := Option.some.inj hs
  have hacts := h w hinv
  rwa [hstep] at hacts

/-- Where one stands who has read the text of the next file. -/
def afterRead (made : Plan) (l : Location) (edits : List TextEdit) (todo : Plan) :
    Except FileError String → Progress
  | .error _ => ⟨made, (l, edits) :: todo, none⟩
  | .ok text =>
    match applyEdits text edits with
    | .error _ => ⟨made, (l, edits) :: todo, none⟩
    | .ok updated =>
      if updated = text then ⟨made ++ [(l, edits)], todo, none⟩
      else ⟨made, (l, edits) :: todo, some text⟩

theorem follows_readText {path : Path} {made todo : Plan} {l : Location} {edits : List TextEdit}
    (hpath : t₀.fileAt? path = some l) :
    Follows (editing ε t₀) (Work.inBackground (readText path)) ⟨made, (l, edits) :: todo, none⟩
      fun g r => g = afterRead made l edits todo r := by
  refine follows_inBackground fun w hinv => ⟨_, ?_, rfl⟩
  have hsame : w.files.SameContents w.files := .refl hinv.wellFormed
  change Edits w w _ (afterRead made l edits todo (w.files.readText path))
  cases hread : w.files.readText path with
  | error e => exact .still hsame
  | ok text =>
    have htext : HasText w.files l text := decode_of_readText (hinv.fileAt? hpath) hread
    unfold afterRead
    dsimp only
    split
    · exact .still hsame
    · next updated hupdated =>
      split
      · next heq =>
        subst heq
        exact .pass hsame htext hupdated
      · exact .read hsame htext

/-- Where one stands who has written a file. -/
def afterWrite (made : Plan) (l : Location) (edits : List TextEdit) (todo : Plan) :
    Option FileError → Progress
  | some _ => ⟨made, (l, edits) :: todo, none⟩
  | none => ⟨made ++ [(l, edits)], todo, none⟩

theorem follows_writeText {path : Path} {made todo : Plan} {l : Location} {edits : List TextEdit}
    {text updated : String} (hpath : t₀.fileAt? path = some l)
    (hupdated : applyEdits text edits = .ok updated) (hne : updated ≠ text) :
    Follows (editing ε t₀) (Work.inBackground (writeText path updated))
      ⟨made, (l, edits) :: todo, some text⟩ fun g r => g = afterWrite made l edits todo r := by
  refine follows_inBackground fun w hinv => ⟨_, ?_, rfl⟩
  unfold writeText
  dsimp only
  rcases replace_contents hinv.wellFormed (hinv.fileAt? hpath) (Utf8.encode updated) with
    ⟨hok, hdone⟩ | ⟨herror, hsame⟩
  · rw [hok]
    exact .write hdone hupdated hne
  · obtain ⟨e, he⟩ := Option.ne_none_iff_exists'.1 herror
    rw [he]
    exact .drop hsame

/-- Where one may stand who has edited a file, or failed to. -/
def Edited (g : Progress) (g' : Progress) : Option String → Prop
  | none => g' = g
  | some _ => g'.holds = none

theorem follows_editFile {uri : String} {path : Path} {made todo : Plan} {l : Location}
    {edits : List TextEdit} (huri : Uri.toPath? uri = some path)
    (hpath : t₀.fileAt? path = some l) :
    Follows (editing ε t₀) (editFile uri edits) ⟨made, (l, edits) :: todo, none⟩
      (Edited ⟨made ++ [(l, edits)], todo, none⟩) := by
  unfold editFile
  rw [huri]
  refine (follows_readText hpath).bind fun g r hg => ?_
  subst hg
  cases r with
  | error e => rfl
  | ok text =>
    unfold afterRead
    dsimp only
    cases hupdated : applyEdits text edits with
    | error overlap => rfl
    | ok updated =>
      dsimp only
      split
      · rfl
      · next hne =>
        refine (follows_writeText hpath hupdated hne).bind fun g r hg => ?_
        subst hg
        cases r <;> rfl

theorem follows_editFiles {files : List FileEdits} {made plan : Plan}
    (hplan : planOf t₀ files = some plan) :
    Follows (editing ε t₀) (editFiles files) ⟨made, plan, none⟩
      (Edited ⟨made ++ plan, [], none⟩) := by
  induction files generalizing made plan with
  | nil =>
    cases hplan
    rw [List.append_nil]
    rfl
  | cons file rest ih =>
    obtain ⟨uri, edits⟩ := file
    simp only [planOf, Option.bind_eq_bind, Option.bind_eq_some_iff] at hplan
    obtain ⟨path, huri, l, hpath, plan, hrest, heq⟩ := hplan
    cases heq
    refine (follows_editFile huri hpath).bind fun g r hg => ?_
    match r with
    | some reason => exact hg
    | none =>
      obtain rfl : g = _ := hg
      have hgo : Follows (editing ε t₀) (editFiles rest) ⟨made ++ [(l, edits)], plan, none⟩
          (Edited ⟨made ++ [(l, edits)] ++ plan, [], none⟩) := ih hrest
      rwa [List.append_assoc] at hgo

/-- The answer that a request was applied. -/
def applied : Except ResponseError Json := .ok (EditRequest.reply none)

/-- A request holds nothing in the end, and has carried out its plan if it says so. -/
def Ended (x : PlannedEdit t₀) (g : Progress) (r : Except ResponseError Json) : Prop :=
  g.holds = none ∧ (r = applied → g = ⟨x.plan, [], none⟩)

theorem reply_some_ne (reason : String) :
    (.ok (EditRequest.reply (some reason)) : Except ResponseError Json) ≠ applied := by
  intro h
  have hno : (EditRequest.reply (some reason)).get? "applied" = some (.bool false) := by
    have hlt : ¬ "failureReason" < "applied" := by decide
    simp [EditRequest.reply, Json.object, Json.get?, Json.sortEntries, Json.insertEntry, hlt]
  have hyes : (EditRequest.reply none).get? "applied" = some (.bool true) := rfl
  rw [Except.ok.inj h, hyes] at hno
  cases hno

theorem follows_applyEdit (x : PlannedEdit t₀) :
    Follows (editing ε t₀) (applyEdit x.params) ⟨[], x.plan, none⟩ (Ended x) := by
  obtain ⟨files, hfiles, hplan⟩ := Option.bind_eq_some_iff.1 x.planned
  unfold filesOf? at hfiles
  unfold applyEdit
  cases hrequest : EditRequest.ofParams x.params with
  | error e =>
    rw [hrequest] at hfiles
    cases hfiles
  | ok request =>
    rw [hrequest] at hfiles
    dsimp only
    cases hedits : request.edit.fileEdits with
    | error reason =>
      simp [Except.toOption, hedits] at hfiles
    | ok files' =>
      obtain rfl : files' = files := by simpa [Except.toOption, hedits] using hfiles
      refine (follows_editFiles hplan).bind fun g r hg => ?_
      cases r with
      | none =>
        obtain rfl : g = _ := hg
        exact ⟨rfl, fun _ => rfl⟩
      | some reason => exact ⟨hg, fun h => absurd h (reply_some_ne reason)⟩

end LspClient.Workspace
