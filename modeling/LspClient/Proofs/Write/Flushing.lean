import LspClient.Proofs.Program.Heeding
import LspClient.Proofs.Write.Batches
import LspClient.Proofs.Write.Unbatched

/-!
# What a write does to its batch

A write that belongs to a batch takes effect there by its first step (`FirstStep`). One that is put
off is over then. One that flushes its batch goes on: the pipelines of the entries that it has taken
out run side by side, each from its beginning, until they are all over (`Flushes`). From its second
step on, a write leaves the batches alone.
-/

namespace LspClient.Session

open Program
open World (SameBatches)
open Batches (since Queue Holds)

variable {ε : Type}

/-- What a caller asks for. -/
structure WriteAsk where
  path : Path
  content : String
  options : WriteOptions
  batch : Option BatchSpec
  token : Token

def writing (s : Session ε) (x : WriteAsk) : Work ε (Except Failure WriteOutcome) :=
  s.write x.path x.content x.options x.batch x.token

/-- What a write means to its batch, if it has one. -/
def batchCall? (s : Session ε) (x : WriteAsk) : Option BatchCall :=
  x.batch.map fun b => ⟨b.id, ⟨s.absolute x.path, x.content, x.options⟩, b.flush⟩

variable {s : Session ε} {x : WriteAsk} {call : BatchCall} {w w' : World ε}
  {p : Work ε (Except Failure WriteOutcome)} {started : List (Work ε Bool)} {id : String}
  {entries : List WriteEntry} {token : Token}

/-! ### The first step of a write -/

/-- What is left of a write when it has taken the entries of its batch out. -/
def flushing (s : Session ε) (id : String) (entries : List WriteEntry) (token : Token) :
    Work ε (Except Failure WriteOutcome) := do
  return .ok (.flushed (← s.flushEntries id entries token))

inductive FirstStep (s : Session ε) (token : Token) (call : BatchCall) (w : World ε) :
    World ε → Work ε (Except Failure WriteOutcome) → Prop
  | deferred (h : call.flush = false) : FirstStep s token call w
      { w with batches := (w.batches.defer call.id call.entry).2 }
      (pure (.ok (.deferred call.id (w.batches.defer call.id call.entry).1)))
  | flushed (h : call.flush = true) : FirstStep s token call w
      { w with batches := (w.batches.flush call.id call.entry).2 }
      (s.flushing call.id (w.batches.flush call.id call.entry).1 token)

theorem step_writing (hx : s.batchCall? x = some call) (h : Step w (s.writing x) w' p started) :
    started = [] ∧ FirstStep s x.token call w w' p := by
  obtain ⟨path, content, options, batch, token⟩ := x
  cases batch with
  | none => cases hx
  | some b =>
    obtain ⟨id, flush⟩ := b
    cases hx
    cases flush with
    | false =>
      obtain ⟨rfl, rfl, rfl⟩ := step_act_bind.1 h
      exact ⟨rfl, .deferred rfl⟩
    | true =>
      obtain ⟨rfl, rfl, rfl⟩ := step_act_bind.1 h
      exact ⟨rfl, .flushed rfl⟩

theorem exists_step_writing (hx : s.batchCall? x = some call) (w : World ε) :
    ∃ w' p, Step w (s.writing x) w' p [] := by
  obtain ⟨path, content, options, batch, token⟩ := x
  cases batch with
  | none => cases hx
  | some b =>
    obtain ⟨id, flush⟩ := b
    cases flush with
    | false => exact ⟨_, _, step_act_bind.2 ⟨rfl, rfl, rfl⟩⟩
    | true => exact ⟨_, _, step_act_bind.2 ⟨rfl, rfl, rfl⟩⟩

/-- The first step of a call does not leave the batches alone, so it is taken once. -/
theorem not_keeps_writing (w : World ε) (hx : s.batchCall? x = some call) :
    ¬ Keeps SameBatches (s.writing x) := by
  intro hkeeps
  have hsame (w : World ε) : ∃ w' p, FirstStep s x.token call w w' p ∧ SameBatches w w' := by
    obtain ⟨w', p, h⟩ := exists_step_writing hx w
    exact ⟨w', p, (step_writing hx h).2, (hkeeps.step .refl h).1⟩
  cases hflush : call.flush with
  | false =>
    obtain ⟨w', p, hfirst, hsame⟩ := hsame { w with batches := [] }
    cases hfirst with
    | flushed h => rw [hflush] at h; cases h
    | deferred =>
      have hqueued := congrArg (fun b : Batches => b.queued call.id) hsame
      simp only [Batches.queued_defer_self] at hqueued
      cases hqueued
  | true =>
    obtain ⟨w', p, hfirst, hsame⟩ :=
      hsame { w with batches := (Batches.defer [] call.id call.entry).2 }
    cases hfirst with
    | deferred h => rw [hflush] at h; cases h
    | flushed =>
      have hqueued := congrArg (fun b : Batches => b.queued call.id) hsame
      simp only [Batches.queued_flush_self, Batches.queued_defer_self] at hqueued
      cases hqueued

section FirstStep

variable {calls : List BatchCall} (h : FirstStep s token call w w' p)

include h

theorem FirstStep.state : w' = { w with batches := w'.batches } := by
  cases h <;> rfl

theorem FirstStep.others (hid : id ≠ call.id) :
    w'.batches.queued id = w.batches.queued id := by
  cases h with
  | deferred => exact Batches.queued_defer_ne hid
  | flushed => exact Batches.queued_flush_ne (e := call.entry) hid

theorem FirstStep.holds (hb : Holds calls w.batches) : Holds (calls ++ [call]) w'.batches := by
  obtain ⟨id, entry, flush⟩ := call
  cases h with
  | deferred hflush =>
    cases hflush
    exact hb.defer id entry
  | flushed hflush =>
    cases hflush
    exact hb.flush id entry

theorem FirstStep.cases (hb : Holds calls w.batches) :
    (call.flush = false ∧ Queue (since call.id calls ++ [call.entry]) (w'.batches.queued call.id) ∧
      p = pure (.ok (.deferred call.id (w'.batches.queued call.id).length))) ∨
    (call.flush = true ∧ w'.batches.queued call.id = [] ∧ ∃ entries,
      Queue (since call.id calls ++ [call.entry]) entries ∧
        p = s.flushing call.id entries token) := by
  cases h with
  | deferred hflush =>
    refine .inl ⟨hflush, ?_, ?_⟩
    · rw [Batches.queued_defer_self]
      exact (hb call.id).enter call.entry
    · rw [Batches.length_defer]
  | flushed hflush =>
    refine .inr ⟨hflush, ?_, _, hb.flushed call.id call.entry, rfl⟩
    exact Batches.queued_flush_self (e := call.entry)

end FirstStep

/-! ### What is left of a write -/

def batchTimeout (s : Session ε) (entries : List WriteEntry) : Nat :=
  if entries.length > 1 then s.settings.batchDiagnosticsTimeout else s.settings.diagnosticsTimeout

def writeOf (s : Session ε) (timeout : Nat) (token : Token) (entry : WriteEntry) :
    Work ε (Path × Except Failure WriteReport) := do
  return (entry.path, ← s.writeEntry entry timeout token)

/-- A batch has been flushed from `w` to `w'`, and this is left: the pipelines of its entries were
begun, one for each, and are to be reported on when they are all over. -/
def Flushes (s : Session ε) (R : World ε → World ε → Prop) (id : String)
    (entries : List WriteEntry) (token : Token) (w w' : World ε)
    (p : Work ε (Except Failure WriteOutcome)) : Prop :=
  ∃ rest, Alongside R (s.writeOf (s.batchTimeout entries) token) w w' entries rest ∧
    p = rest >>= fun results => pure (.ok (.flushed (BatchReport.ofResults id results)))

variable {R R' : World ε → World ε → Prop}

theorem flushing_eq : s.flushing id entries token =
    Program.all (entries.map (s.writeOf (s.batchTimeout entries) token)) >>= fun results =>
      pure (.ok (.flushed (BatchReport.ofResults id results))) := by
  cases entries <;> rfl

theorem flushes_flushing : s.Flushes R id entries token w w (s.flushing id entries token) :=
  ⟨_, alongside_all entries, flushing_eq⟩

theorem Flushes.mono (hR : ∀ w w', R w w' → R' w w') (h : s.Flushes R id entries token w w' p) :
    s.Flushes R' id entries token w w' p := by
  obtain ⟨rest, hrest, hp⟩ := h
  exact ⟨rest, hrest.mono hR, hp⟩

theorem Flushes.others {w'' : World ε} (h : s.Flushes R id entries token w w' p)
    (hw : R w' w'') : s.Flushes R id entries token w w'' p := by
  obtain ⟨rest, hrest, hp⟩ := h
  exact ⟨rest, hrest.others hw, hp⟩

theorem Flushes.step {w'' : World ε} {p' : Work ε (Except Failure WriteOutcome)}
    (h : s.Flushes R id entries token w w' p) (hs : Step w' p w'' p' started) (hw : R w' w'') :
    s.Flushes R id entries token w w'' p' := by
  obtain ⟨rest, hrest, rfl⟩ := h
  rcases step_bind hs with ⟨results, rfl, hdone⟩ | ⟨rest', rfl, hstep⟩
  · cases hdone
  · exact ⟨rest', hrest.step hstep hw, rfl⟩

/-- A flush that is over reports on one pipeline for each entry, in order. -/
theorem Flushes.reported {o : Except Failure WriteOutcome}
    (h : s.Flushes R id entries token w w' (.done o)) : ∃ results,
      o = .ok (.flushed (BatchReport.ofResults id results)) ∧
      List.Forall₂ (fun entry result => result.1 = entry.path ∧
        Reaches R (s.writeEntry entry (s.batchTimeout entries) token) w (.done result.2) w')
        entries results := by
  obtain ⟨rest, hrest, heq⟩ := h
  cases rest with
  | done results =>
    cases heq
    refine ⟨results, rfl, hrest.results.imp fun entry result hresult => ?_⟩
    obtain ⟨o, rfl, ho⟩ := hresult.done_of_label
    exact ⟨rfl, ho⟩
  | _ => cases heq

theorem keeps_flushing (hs : s.LeavesBatches) :
    Keeps SameBatches (s.flushing id entries token) := by
  rw [flushing_eq]
  refine .bind (.all _ fun p hp => ?_) fun _ => .pure _
  obtain ⟨entry, -, rfl⟩ := List.mem_map.1 hp
  exact .bind (unbatched_writeEntry hs) fun _ => .pure _

theorem FirstStep.keeps (hs : s.LeavesBatches) (h : FirstStep s token call w w' p) :
    Keeps SameBatches p := by
  cases h with
  | deferred => exact .pure _
  | flushed => exact keeps_flushing hs

theorem keeps_writing (hs : s.LeavesBatches) (hx : s.batchCall? x = none) :
    Keeps SameBatches (s.writing x) := by
  obtain ⟨path, content, options, batch, token⟩ := x
  cases batch with
  | none => exact .bind (unbatched_writeEntry hs) fun _ => .pure _
  | some b => cases hx

end LspClient.Session
