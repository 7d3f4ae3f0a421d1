import LspClient.Document.Locks
import LspClient.Message.Params
import LspClient.Proofs.Message.Classifying
import Mathlib.Data.List.Basic

/-!
# What a frame says about a document

`noteOf` reads a frame as a server reads it. A document notification is the note that a document
was opened or changed, with its version, or saved. The other frames of a connection, requests,
responses and notifications by other methods, are none.

What a server may be told of one document is that it was opened, and then changes and savings, with
versions that begin with the first one and go up by one until they stay at the greatest. A log that
is in order stays so with a note that comes next (`Orderly.append`).
-/

namespace LspClient

namespace Document

/-- What the server is told of a document. -/
inductive Note where
  | opened (version : Int)
  | changed (version : Int)
  | saved
  deriving DecidableEq, Repr

/-- The version that a note gives the document. -/
def Note.version? : Note → Option Int
  | .opened v => some v
  | .changed v => some v
  | .saved => none

/-- The document that parameters are about. -/
def documentOf (params : Json) : Json := params.member "textDocument"

def uriOf (params : Json) : Option String := ((documentOf params).get? "uri").bind Json.str?

def versionOf (params : Json) : Option Int :=
  ((documentOf params).get? "version").bind Json.int?

/-- The note of a notification. -/
def noteOfNotification (method : String) (params : Json) : Option Note :=
  if method = Method.didOpen then (versionOf params).map .opened
  else if method = Method.didChange then (versionOf params).map .changed
  else if method = Method.didSave then some .saved
  else none

/-- The document that a frame is about, and what it says. -/
def noteOf (frame : Json) : Option (String × Note) :=
  match Message.classify frame with
  | some (.notification method (some params)) =>
    (uriOf params).bind fun uri => (noteOfNotification method params).map fun note => (uri, note)
  | _ => none

/-- The methods of document notifications. -/
def methods : List String := [Method.didOpen, Method.didChange, Method.didSave]

/-! ### Frames -/

theorem noteOf_of_id {frame id : Json} (h : frame.get? "id" = some id) : noteOf frame = none := by
  unfold noteOf
  split
  · next hnotification => exact absurd hnotification (Message.classify_ne_notification h _ _)
  · rfl

theorem noteOf_ofRequest (id : Nat) (method : String) (params : Option Json) :
    noteOf (Message.ofRequest id method params) = none := by
  rw [noteOf, Message.classify_ofRequest]

theorem noteOf_ofResult (id result : Json) : noteOf (Message.ofResult id result) = none :=
  noteOf_of_id (Message.id_ofResult id result)

theorem noteOf_ofError (id : Json) (e : ResponseError) :
    noteOf (Message.ofError id e) = none := noteOf_of_id (Message.id_ofError id e)

theorem noteOf_ofNotification (method : String) (params : Json) :
    noteOf (Message.ofNotification method (some params)) = (uriOf params).bind fun uri =>
      (noteOfNotification method params).map fun note => (uri, note) := by
  rw [noteOf, Message.classify_ofNotification]

/-- A notification by another method is no document notification. -/
theorem noteOf_ofNotification_of_not_mem {method : String} (h : method ∉ methods)
    (params : Option Json) : noteOf (Message.ofNotification method params) = none := by
  cases params with
  | none => rw [noteOf, Message.classify_ofNotification]
  | some params =>
    rw [noteOf_ofNotification]
    simp only [methods, List.mem_cons, List.not_mem_nil, or_false, not_or] at h
    simp [noteOfNotification, h]

/-! ### The notifications of an operation -/

theorem noteOf_didOpen (uri languageId text : String) (version : Int) :
    noteOf (Message.ofNotification Method.didOpen
      (some (Params.didOpen uri languageId version text))) = some (uri, .opened version) := by
  rw [noteOf_ofNotification]
  simp [uriOf, versionOf, documentOf, noteOfNotification, Params.didOpen, Json.member,
    Json.get?_object, List.lookup_cons, Json.str?, Json.int?, Json.int]

theorem noteOf_didChange (uri text : String) (version : Int) :
    noteOf (Message.ofNotification Method.didChange
      (some (Params.didChange uri version text))) = some (uri, .changed version) := by
  have hmethod : Method.didChange ≠ Method.didOpen := by decide
  rw [noteOf_ofNotification]
  simp [uriOf, versionOf, documentOf, noteOfNotification, Params.didChange, Json.member,
    Json.get?_object, List.lookup_cons, Json.str?, Json.int?, Json.int, hmethod]

theorem noteOf_didSave (uri : String) (text : Option String) :
    noteOf (Message.ofNotification Method.didSave
      (some (Params.didSave uri text))) = some (uri, .saved) := by
  have hopen : Method.didSave ≠ Method.didOpen := by decide
  have hchange : Method.didSave ≠ Method.didChange := by decide
  rw [noteOf_ofNotification]
  cases text <;>
    simp [uriOf, documentOf, noteOfNotification, Params.didSave, Params.textDocument, Json.member,
      Json.get?_object, List.lookup_cons, Json.str?, hopen, hchange]

/-! ### Notes in order -/

open Documents

/-- The version that a document was given last. -/
def lastVersion? (log : List Note) : Option Int := (log.filterMap Note.version?).getLast?

/-- The version that is given by the opening or the change with this number, from zero on. -/
def versionAt (k : Nat) : Int := min (k + 1) maxVersion

structure Orderly (log : List Note) : Prop where
  shape : log = [] ∨ ∃ rest, log = .opened firstVersion :: rest ∧
    ∀ version, Note.opened version ∉ rest
  versions : log.filterMap Note.version? =
    (List.range (log.filterMap Note.version?).length).map versionAt

/-- What may be told next of a document, by the version that it was given last. -/
def Note.Next (version : Option Int) : Note → Prop
  | .opened n => version = none ∧ n = firstVersion
  | .changed n => ∃ m, version = some m ∧ n = nextVersion m
  | .saved => version ≠ none

theorem orderly_nil : Orderly [] := ⟨.inl rfl, rfl⟩

theorem lastVersion?_append (log : List Note) (note : Note) :
    lastVersion? (log ++ [note]) = note.version?.or (lastVersion? log) := by
  unfold lastVersion?
  rw [List.filterMap_append]
  cases hv : note.version? with
  | none => simp [hv]
  | some n => simp [hv]

theorem versionAt_zero : versionAt 0 = firstVersion := by decide

theorem versionAt_succ (k : Nat) : versionAt (k + 1) = nextVersion (versionAt k) := by
  unfold versionAt nextVersion
  omega

variable {log : List Note} {note : Note}

namespace Orderly

variable (h : Orderly log)

include h

/-- A document that was given no version was not told of. -/
theorem eq_nil (hnone : lastVersion? log = none) : log = [] := by
  rcases h.shape with hnil | ⟨rest, rfl, -⟩
  · exact hnil
  · have hversions := List.getLast?_eq_none_iff.1 hnone
    rw [List.filterMap_cons] at hversions
    cases hversions

theorem lastVersion?_eq {n : Int} (hn : lastVersion? log = some n) :
    ∃ k, (log.filterMap Note.version?).length = k + 1 ∧ n = versionAt k := by
  unfold lastVersion? at hn
  have hversions := h.versions
  generalize log.filterMap Note.version? = versions at hn hversions
  cases hlen : versions.length with
  | zero =>
    rw [List.eq_nil_of_length_eq_zero hlen] at hn
    cases hn
  | succ k =>
    refine ⟨k, rfl, ?_⟩
    rw [hlen, List.range_succ, List.map_append] at hversions
    rw [hversions, List.map_singleton, List.getLast?_concat] at hn
    exact (Option.some.inj hn).symm

theorem shape_append (hnext : note.Next (lastVersion? log)) :
    ∃ rest, log ++ [note] = .opened firstVersion :: rest ∧
      ∀ version, Note.opened version ∉ rest := by
  rcases h.shape with rfl | ⟨rest, rfl, hrest⟩
  · refine ⟨[], ?_, fun _ => List.not_mem_nil⟩
    cases note with
    | opened n => rw [hnext.2, List.nil_append]
    | changed n =>
      obtain ⟨m, hm, -⟩ := hnext
      cases hm
    | saved => exact absurd rfl hnext
  · refine ⟨rest ++ [note], rfl, fun version hmem => ?_⟩
    rcases List.mem_append.1 hmem with hmem | hmem
    · exact hrest version hmem
    · have heq := List.mem_singleton.1 hmem
      subst heq
      have hnil := Orderly.eq_nil h hnext.1
      cases hnil

theorem versions_append (hnext : note.Next (lastVersion? log)) :
    (log ++ [note]).filterMap Note.version? =
      (List.range ((log ++ [note]).filterMap Note.version?).length).map versionAt := by
  have hmore (n : Int) (hn : n = versionAt (log.filterMap Note.version?).length) :
      log.filterMap Note.version? ++ [n] =
        (List.range (log.filterMap Note.version? ++ [n]).length).map versionAt := by
    rw [List.length_append, List.length_singleton, List.range_succ, List.map_append,
      ← h.versions, hn]
    rfl
  have hsingle : [note].filterMap Note.version? = note.version?.toList := by
    cases note <;> rfl
  rw [List.filterMap_append, hsingle]
  -- an open comes first, a change counts on from the last version, a save has none
  cases note with
  | opened n =>
    have hzero : (log.filterMap Note.version?).length = 0 := by
      rw [h.eq_nil hnext.1]
      rfl
    refine hmore n ?_
    rw [hnext.2, hzero, versionAt_zero]
  | changed n =>
    obtain ⟨m, hm, hn⟩ := hnext
    obtain ⟨k, hlen, hk⟩ := h.lastVersion?_eq hm
    refine hmore n ?_
    rw [hn, hk, hlen, versionAt_succ]
  | saved =>
    have hnone : Note.saved.version?.toList = [] := rfl
    rw [hnone, List.append_nil]
    exact h.versions

theorem append (hnext : note.Next (lastVersion? log)) : Orderly (log ++ [note]) :=
  ⟨.inr (h.shape_append hnext), h.versions_append hnext⟩

end Orderly

end Document

end LspClient
