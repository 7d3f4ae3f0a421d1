import LspClient.Proofs.Document.Keeping
import LspClient.Proofs.Program.Staged

/-!
# Those who work on documents

The clients of a crew work on documents, each on one or on none (`doc`). Who stands at a stage of
work on a document is a client that was asked to work on it (`Asked`), and the state of the
connection goes with the stages (`Attended`), whoever moves. While nobody works on a document, the
version that is recorded is the one that was told last, and nothing about it is in transit.
-/

namespace LspClient.Document

open Program Crew

variable {ε κ ρ : Type} {i : Nat} {w w' : World ε} {st st' : Stage} {uri : String}

/-- Where one begins who is to work on a document, or on none. -/
def Stage.first (doc : Option String) : Stage := doc.elim .idle .asks

@[simp] theorem Stage.task_first (doc : Option String) : (Stage.first doc).task = doc := by
  cases doc <;> rfl

theorem Acts.task_eq (h : Acts i w w' st st') : st'.task = st.task := by
  cases h with
  | mail hm =>
    cases hm with
    | @hear o o' uri t k v note frame d =>
      unfold heard
      split
      · cases note <;> rfl
      · rfl
    | _ => rfl
  | lock hl => cases hl <;> rfl
  | _ => rfl

theorem task_of_turn? {t : Nat} {held : Bool} (h : st.turn? = some ⟨uri, t, held⟩) :
    st.task = some uri := by
  cases st <;> cases h <;> rfl

variable {doc : κ → Option String} {Q : κ → Stage → ρ → Prop} {R : Rules (World ε) κ ρ}
  {c c' : Crew (World ε) κ ρ} {P P' : Actor → Stage} {a : Actor} {wire : Wire}
  {moments later : List (Moment (World ε))} {m : Moment (World ε)}

/-- Who works on a document was asked to. -/
def Asked (doc : κ → Option String) (P : Actor → Stage) (c : Crew (World ε) κ ρ) : Prop :=
  ∀ a uri, (P a).task = some uri →
    ∃ k x p, a = .client k ∧ c.clients[k]? = some (x, p) ∧ doc x = some uri

theorem Asked.goes (h : Asked doc P c) (hmove : Move R c a c')
    (hgoes : Goes (discipline ε i) (fun x => Stage.first (doc x)) P c a c' P') :
    Asked doc P' c' := by
  have hstays {b : Actor} {uri : String} (hb : (P b).task = some uri) :
      ∃ k x p, b = .client k ∧ c'.clients[k]? = some (x, p) ∧ doc x = some uri := by
    obtain ⟨k, x, p, rfl, hk, huri⟩ := h b uri hb
    obtain ⟨q, hq⟩ := hmove.client_stays hk
    exact ⟨k, x, q, rfl, hq, huri⟩
  cases hgoes with
  | acts hacts =>
    intro b uri hb
    refine hstays ?_
    exact (update_eq Stage.task (Acts.task_eq hacts) b).symm.trans hb
  | @enters c' x p hs hclients =>
    intro b uri hb
    rcases of_update (fun st : Stage => st.task = some uri) hb with ⟨rfl, hfirst⟩ | ⟨-, hb⟩
    · rw [Stage.task_first] at hfirst
      refine ⟨_, x, p, rfl, ?_, hfirst⟩
      rw [hclients, List.getElem?_concat_length]
    · exact hstays hb
  | hands _ hhands => exact hhands.elim

theorem Kept.first {conn : Connection} (h : Kept P wire conn) (ha : P a = .idle)
    (doc : Option String) : Kept (Function.update P a (Stage.first doc)) wire conn := by
  cases doc with
  | none =>
    change Kept (Function.update P a .idle) wire conn
    rwa [← ha, Function.update_eq_self]
  | some uri =>
    change Kept (Function.update P a (.asks uri)) wire conn
    refine ⟨?_, h.underWay, ?_, ?_⟩
    · rw [comp_update_of_eq (by rw [ha]; rfl)]
      exact h.queued
    · rw [comp_update_of_eq (by rw [ha]; rfl)]
      exact h.mailed
    · exact h.versioned.update trivial nofun (by rw [ha]; rfl) fun _ _ => rfl

/-- The members of a crew stand at the stages `P` when `wire` is what was written. -/
structure Attended (i : Nat) (doc : κ → Option String) (Q : κ → Stage → ρ → Prop) (wire : Wire)
    (P : Actor → Stage) (c : Crew (World ε) κ ρ) : Prop where
  staged : Staged (discipline ε i) Q P c
  asked : Asked doc P c
  kept : Kept P wire (c.state.connection i)

theorem kept_make (options : ConnectionOptions) (input output : Nat) (process : Option Nat)
    (uptime : Nat) : Kept (fun _ => .idle) ⟨[], none⟩
      (Connection.make options input output process uptime) where
  queued := queued_empty
  underWay := rfl
  mailed := mailed_empty
  versioned := {
    proper := fun _ => trivial
    known := nofun
    orderly := fun _ => orderly_nil
    ahead := nofun
    level := fun _ _ => rfl }

/-- A connection begins with nobody at work. -/
theorem attended_make {options : ConnectionOptions} {input output uptime : Nat}
    {process : Option Nat} (hi : i < w.connections.length)
    (hnew : w.connection i = Connection.make options input output process uptime) :
    Attended i doc Q ⟨[], none⟩ (fun _ => .idle) (ofState w) := by
  refine ⟨staged_ofState hi, nofun, ?_⟩
  change Kept _ _ (w.connection i)
  rw [hnew]
  exact kept_make ..

/-- What has been written after a moment. -/
def Wire.after (i : Nat) (wire : Wire) (m : Moment (World ε)) : Wire :=
  wire.next (m.before.pipe (m.before.connection i).output).sinkClosed
    (m.before.connection i) (m.after.connection i)

/-- What has been written after moments in a row. -/
def Wire.along (i : Nat) (wire : Wire) (moments : List (Moment (World ε))) : Wire :=
  moments.foldl (Wire.after i) wire

@[simp] theorem Wire.along_append : wire.along i (moments ++ later) =
    (wire.along i moments).along i later := List.foldl_append

theorem Wire.along_singleton : wire.along i [m] = wire.after i m := rfl

section Run

variable (hR : R.Obeys (discipline ε i) (fun x => Stage.first (doc x)) Q)

include hR

theorem Attended.move (h : Attended i doc Q wire P c) (hmove : Move R c a c') :
    ∃ P', Goes (discipline ε i) (fun x => Stage.first (doc x)) P c a c' P' ∧
      Attended i doc Q (wire.after i ⟨a, c.state, c'.state⟩) P' c' := by
  obtain ⟨P', hgoes, hstaged⟩ := hmove.staged hR h.staged
  refine ⟨P', hgoes, hstaged, h.asked.goes hmove hgoes, ?_⟩
  cases hgoes with
  | acts hacts => exact h.kept.acts hacts
  | @enters c' x p hs hclients =>
    rw [hs, Wire.after, Wire.next_of_same rfl]
    exact h.kept.first (h.staged.clients.idle _ (Nat.le_refl _)) _
  | hands _ hhands => exact hhands.elim

theorem Attended.run (h : Attended i doc Q wire P c) (run : Run R c moments c') :
    ∃ P', Attended i doc Q (wire.along i moments) P' c' := by
  induction run with
  | nil => exact ⟨P, h⟩
  | move _ hmove ih =>
    obtain ⟨P', h'⟩ := ih
    obtain ⟨P'', -, h''⟩ := h'.move hR hmove
    exact ⟨P'', by rwa [Wire.along_append, Wire.along_singleton]⟩

end Run

/-- Nobody has a turn on a document whose clients are all over, if one who is over has none. -/
theorem Attended.turn?_ne (h : Attended i doc Q wire P c)
    (hleft : ∀ x st r, Q x st r → st.turn? = none)
    (hquiet : ∀ k x p, c.clients[k]? = some (x, p) → doc x = some uri → c.IsOver (.client k))
    (a : Actor) (t : Nat) (held : Bool) : (P a).turn? ≠ some ⟨uri, t, held⟩ := by
  intro hturn
  obtain ⟨k, x, p, rfl, hk, huri⟩ := h.asked a uri (task_of_turn? hturn)
  obtain ⟨y, r, hover⟩ := hquiet k x p hk huri
  have hnone := hleft y _ r (h.staged.clients.follows k y _ hover)
  cases hnone.symm.trans hturn

/-- While nobody works on a document, the version that is recorded is the one that was told last. -/
theorem Attended.level (h : Attended i doc Q wire P c)
    (hleft : ∀ x st r, Q x st r → st.turn? = none)
    (hquiet : ∀ k x p, c.clients[k]? = some (x, p) → doc x = some uri → c.IsOver (.client k)) :
    (c.state.connection i).documents.version? uri = lastVersion? (logOf uri wire.written) := by
  refine (h.kept.versioned.level uri fun a n hahead => ?_).symm
  obtain ⟨t, hturn⟩ := Stage.turn?_of_ahead? hahead
  exact h.turn?_ne hleft hquiet a t true hturn

end LspClient.Document
