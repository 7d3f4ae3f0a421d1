import LspClient.Proofs.Document.Attending
import LspClient.Proofs.Document.Telling
import LspClient.Proofs.Program.Hosting

/-!
# What gets written of what is posted

A frame that is posted gets written or is dropped. So if all notes that are posted about a document
are of a kind, so are all that get written (`Attended.tells`); and a note that is reported to be
written was written after it was posted (`Attended.delivered`). Once nobody works on the document,
nothing about it is left in transit (`Attended.settled`).
-/

namespace LspClient.Document

open Program Crew

variable {ε κ ρ : Type} {i k : Nat} {w w' : World ε} {st st' : Stage} {uri : String}
  {frame : Json} {wire : Wire} {moments later : List (Moment (World ε))} {m : Moment (World ε)}

/-! ### What is written in moments -/

/-- What is written in moments in a row. -/
def news (i : Nat) (wire : Wire) (moments : List (Moment (World ε))) : List Json :=
  (wire.along i moments).written.drop wire.written.length

/-- In a moment the frame under way is written, or nothing. -/
theorem Wire.written_after (wire : Wire) (m : Moment (World ε)) :
    (wire.after i m).written = wire.written ∨
      ∃ e, wire.underWay = some e ∧ (wire.after i m).written = wire.written ++ [e.1] := by
  unfold Wire.after Wire.next
  split
  · exact .inl rfl
  · split
    · split
      · exact .inl rfl
      · cases h : wire.underWay with
        | none => exact .inl (List.append_nil _)
        | some e => exact .inr ⟨e, rfl, rfl⟩
    · exact .inl rfl

theorem written_along (i : Nat) (wire : Wire) (moments : List (Moment (World ε))) :
    (wire.along i moments).written = wire.written ++ news i wire moments := by
  have hprefix : wire.written <+: (wire.along i moments).written := by
    induction moments using List.reverseRecOn with
    | nil => exact List.prefix_refl _
    | append_singleton moments m ih =>
      rw [Wire.along_append, Wire.along_singleton]
      rcases (wire.along i moments).written_after (i := i) m with h | ⟨e, -, h⟩
      · rwa [h]
      · rw [h]
        exact ih.trans (List.prefix_append _ _)
  exact (List.prefix_iff_eq_append.1 hprefix).symm

theorem news_append (i : Nat) (wire : Wire) (moments later : List (Moment (World ε))) :
    news i wire (moments ++ later) =
      news i wire moments ++ news i (wire.along i moments) later := by
  refine (List.append_right_inj wire.written).1 ?_
  rw [← written_along, Wire.along_append, written_along, written_along, List.append_assoc]

/-- Nothing is written in moments in which nothing happens. -/
theorem Wire.along_of_still (h : ∀ m ∈ moments, m.after = m.before) :
    wire.along i moments = wire := by
  induction moments with
  | nil => rfl
  | cons m moments ih =>
    have hm : wire.after i m = wire := by
      rw [Wire.after, h m (List.mem_cons_self ..), Wire.next_of_same rfl]
    change (wire.after i m).along i moments = wire
    rw [hm]
    exact ih fun m hm => h m (List.mem_cons_of_mem _ hm)

/-- What is written hangs on the states alone. -/
theorem Wire.along_of_mirrors {moments' : List (Moment (World ε))}
    (h : Mirrors moments moments') : wire.along i moments' = wire.along i moments := by
  have hfold (moments : List (Moment (World ε))) : wire.along i moments =
      (moments.map fun m => (m.before, m.after)).foldl
        (fun wire e => wire.after i ⟨.outside, e.1, e.2⟩) wire := by
    rw [List.foldl_map]
    rfl
  rw [hfold, hfold, h]

/-! ### Posting -/

/-- To post a note is to come to the stage of one who has posted it. -/
theorem Acts.posted (ha : Acts i w w' st st') (hposts : PostsFrame i k frame w w')
    (hnote : noteOf frame ≠ none) :
    ∃ uri t v note, st' = .posted uri t v note k frame ∧ noteOf frame = some (uri, note) := by
  have hsame {c : Connection} (hb : Becomes i w w' c)
      (hqueue : c.outbox.queue = (w.connection i).outbox.queue) : False := by
    rw [PostsFrame, hb.mail.outbox, hqueue] at hposts
    simp at hposts
  -- a frame is queued with a ticket by mail only, and of the mail only by posting
  cases ha with
  | aside hb => exact (hsame hb rfl).elim
  | lock _ hb => exact (hsame hb rfl).elim
  | read hb => exact (hsame hb rfl).elim
  | record hb => exact (hsame hb rfl).elim
  | mail hm hb =>
    rw [PostsFrame, hb.mail.outbox] at hposts
    have hin {command : Command} {o o' : Outbox} {k' : Nat}
        (ho : o.takeIn k' command = some o')
        (hqueue : o'.queue = o.queue ++ [.send frame (some k)]) :
        command = .send frame (some k) := by
      rw [(takeIn_eq_some ho).1] at hqueue
      simpa using hqueue
    cases hm with
    | postNote hof ho =>
      cases hin ho hposts
      exact ⟨_, _, _, _, rfl, hof⟩
    | queue hplain ho =>
      have heq := hin ho hposts
      cases hplain <;> cases heq
    | post hof ho =>
      cases hin ho hposts
      exact absurd hof hnote
    | offer =>
      unfold Outbox.offer at hposts
      split at hposts <;> simp at hposts
    | collect ho => exact (hsame hb (collect_eq_some ho).2.1).elim
    | hear ho => exact (hsame hb (collect_eq_some ho).2.1).elim
    | _ => exact (hsame hb rfl).elim
  | write hw hb =>
    cases hw with
    | begin _ hq =>
      rw [PostsFrame, hb.mail.outbox, hq] at hposts
      have hlength := congrArg List.length hposts
      simp only [List.length_append, List.length_cons, List.length_nil] at hlength
      omega
    | goOn => exact (hsame hb rfl).elim
    | @finish bytes ticket d =>
      refine (hsame hb ?_).elim
      cases ticket <;> rfl
    | close ho =>
      rw [PostsFrame, hb.mail.outbox, ho.queue] at hposts
      simp at hposts

/-! ### Kinds of notes -/

/-- All notes about a document that were written since are of a kind, and all in transit are. -/
structure Tells (uri : String) (F : Json → Prop) (base : List Json) (wire : Wire) (o : Outbox) :
    Prop where
  written : ∃ new, wire.written = base ++ new ∧ ∀ frame ∈ new, noteOn uri frame ≠ none → F frame
  transit : ∀ e ∈ transit wire o, noteOn uri e.1 ≠ none → F e.1

theorem Mails.queue_cases {o o' : Outbox} (hm : Mails st o st' o') : o'.queue = o.queue ∨
    ∃ command, o'.queue = o.queue ++ [command] ∧ ∀ frame ticket, command = .send frame ticket →
      noteOf frame = none ∨ ∃ k, ticket = some k := by
  cases hm with
  | @queue o o' k command hplain ho =>
    refine .inr ⟨_, (takeIn_eq_some ho).1, fun frame ticket heq => ?_⟩
    subst heq
    cases hplain with
    | send hof => exact .inl hof
  | post _ ho =>
    refine .inr ⟨_, (takeIn_eq_some ho).1, fun frame ticket heq => ?_⟩
    cases heq
    exact .inr ⟨_, rfl⟩
  | postNote _ ho =>
    refine .inr ⟨_, (takeIn_eq_some ho).1, fun frame ticket heq => ?_⟩
    cases heq
    exact .inr ⟨_, rfl⟩
  | offer hof =>
    unfold Outbox.offer
    split
    · exact .inl rfl
    · refine .inr ⟨_, rfl, fun frame ticket heq => ?_⟩
      cases heq
      exact .inl hof
  | collect ho => exact .inl (collect_eq_some ho).2.1
  | hear ho => exact .inl (collect_eq_some ho).2.1
  | _ => exact .inl rfl

/-- What is in transit was, or is no note, or has just been posted. -/
theorem Kept.transit_cases {P : Actor → Stage} {closed : Bool} (h : Kept P wire (w.connection i))
    (ha : Acts i w w' st st') :
    ∀ e ∈ transit (wire.next closed (w.connection i) (w'.connection i)) (w'.connection i).outbox,
      e ∈ transit wire (w.connection i).outbox ∨ noteOf e.1 = none ∨
        ∃ k, PostsFrame i k e.1 w w' := by
  have hsame {c : Connection} (hb : Becomes i w w' c)
      (hwriting : c.writing.isSome = (w.connection i).writing.isSome)
      (hqueue : c.outbox.queue = (w.connection i).outbox.queue) :
      transit (wire.next closed (w.connection i) (w'.connection i)) (w'.connection i).outbox =
        transit wire (w.connection i).outbox := by
    rw [Wire.next_of_same (by rw [hb.mail.writing, hwriting]), transit, hb.mail.outbox, hqueue]
    rfl
  intro e he
  -- what is in transit only grows when something is queued
  cases ha with
  | aside hb => exact .inl (hsame hb rfl rfl ▸ he)
  | lock _ hb => exact .inl (hsame hb rfl rfl ▸ he)
  | read hb => exact .inl (hsame hb rfl rfl ▸ he)
  | record hb => exact .inl (hsame hb rfl rfl ▸ he)
  | mail hm hb =>
    rcases hm.queue_cases with hqueue | ⟨command, hqueue, hcommand⟩
    · exact .inl (hsame hb rfl hqueue ▸ he)
    · rw [Wire.next_of_same (by rw [hb.mail.writing]), hb.mail.outbox,
        transit_of_queue hqueue] at he
      rcases List.mem_append.1 he with he | he
      · exact .inl he
      · cases command with
        | shutdown => cases he
        | send frame ticket =>
          obtain rfl : e = (frame, ticket) := by simpa [Command.sent?] using he
          refine .inr ((hcommand frame ticket rfl).imp_right ?_)
          rintro ⟨k, rfl⟩
          exact ⟨k, by rw [PostsFrame, hb.mail.outbox, hqueue]⟩
  | write hw hb =>
    refine .inl ?_
    cases hw with
    | @begin frame ticket rest bytes hwriting hq =>
      have hidle : wire.underWay = none := by
        have hunderWay := h.underWay
        rw [hwriting] at hunderWay
        exact Option.map_eq_none_iff.1 hunderWay
      rw [Wire.next_of_begin hwriting (by rw [hb.mail.writing]; rfl), transit, hb.mail.outbox,
        hq] at he
      rw [transit, hidle, hq]
      exact he
    | goOn hwriting => exact hsame hb (by rw [hwriting]; rfl) rfl ▸ he
    | @finish bytes ticket d hwriting =>
      rw [Wire.next_of_finish (by rw [hwriting]; rfl) hb.mail.writing, transit,
        hb.mail.outbox] at he
      refine List.mem_append_right _ ?_
      cases ticket <;> exact he
    | @close o ho =>
      rw [Wire.next_of_same (by rw [hb.mail.writing]), transit, hb.mail.outbox, ho.queue] at he
      exact List.mem_append_left _ (by simpa using he)

theorem Tells.acts {P : Actor → Stage} {F : Json → Prop} {base : List Json} {a : Actor}
    (h : Tells uri F base wire (w.connection i).outbox) (hkept : Kept P wire (w.connection i))
    (ha : Acts i w w' st st')
    (hF : ∀ k frame, noteOn uri frame ≠ none → PostsFrame i k frame w w' → F frame) :
    Tells uri F base (wire.after i ⟨a, w, w'⟩) (w'.connection i).outbox where
  written := by
    obtain ⟨new, hnew, hkind⟩ := h.written
    rcases wire.written_after (i := i) ⟨a, w, w'⟩ with heq | ⟨e, he, heq⟩
    · exact ⟨new, heq.trans hnew, hkind⟩
    · refine ⟨new ++ [e.1], by rw [heq, hnew, List.append_assoc], fun frame hframe hnote => ?_⟩
      rcases List.mem_append.1 hframe with hframe | hframe
      · exact hkind frame hframe hnote
      · obtain rfl := List.mem_singleton.1 hframe
        exact h.transit e (List.mem_append_left _ (by simp [he])) hnote
  transit e he hnote := by
    rcases hkept.transit_cases ha e he with hold | hnone | ⟨k, hposts⟩
    · exact h.transit e hold hnote
    · exact absurd (by rw [noteOn, hnone]; rfl) hnote
    · exact hF k e.1 hnote hposts

/-! ### Reports -/

theorem get?_of_dropped {sent : List (Json × Option Nat)} {deliveries : Table Nat Delivery}
    (h : (dropped sent deliveries).get? k = some .written) :
    deliveries.get? k = some .written := by
  induction sent generalizing deliveries with
  | nil => exact h
  | cons e sent ih =>
    have hreported : (reported deliveries e.2 .dropped).get? k = some .written := ih h
    rw [get?_reported] at hreported
    split at hreported
    · cases hreported
    · exact hreported

/-- A report that a note was written comes in the moment in which it is. -/
theorem Kept.written_of_report {P : Actor → Stage} {a b : Actor} {t : Nat} {v : Option Int}
    {note : Note} (h : Kept P wire (w.connection i)) (hst : P a = .posted uri t v note k frame)
    (hne : b ≠ a)
    (ha : Acts i w w' (P b) st')
    (hnot : (w.connection i).outbox.deliveries.get? k ≠ some .written)
    (hnow : (w'.connection i).outbox.deliveries.get? k = some .written) :
    (wire.after i ⟨b, w, w'⟩).written = wire.written ++ [frame] := by
  have hpost : (Stage.post? ∘ P) a = some (.posted k (some frame)) := by
    rw [Function.comp_apply, hst]
    rfl
  have hsame {c : Connection} (hb : Becomes i w w' c)
      (hd : c.outbox.deliveries.get? k = (w.connection i).outbox.deliveries.get? k) : False := by
    rw [hb.mail.outbox, hd] at hnow
    exact hnot hnow
  generalize hbst : P b = stb at ha
  -- the delivery is reported written by the writer alone, at the end of a frame
  cases ha with
  | aside hb => exact (hsame hb rfl).elim
  | lock _ hb => exact (hsame hb rfl).elim
  | read hb => exact (hsame hb rfl).elim
  | record hb => exact (hsame hb rfl).elim
  | mail hm hb =>
    rcases hm.deliveries_cases with heq | ⟨n, hn, heq⟩
    · exact (hsame hb (congrArg (Table.get? · k) heq)).elim
    -- another actor only collects its own ticket
    · have hticket : n.ticket ≠ k := fun heq =>
        hne (h.mailed.unique b a n _ (by rw [Function.comp_apply, hbst, hn]) hpost heq)
      refine (hsame hb ?_).elim
      dsimp only
      rw [heq, Table.get?_erase_ne _ hticket]
  | write hw hb =>
    cases hw with
    | begin => exact (hsame hb rfl).elim
    | goOn => exact (hsame hb rfl).elim
    | close ho =>
      rw [hb.mail.outbox, ho.deliveries] at hnow
      exact absurd (get?_of_dropped hnow) hnot
    | @finish bytes ticket d hwriting hd =>
      have hunderWay := h.underWay
      rw [hwriting] at hunderWay
      obtain ⟨⟨frame', ticket'⟩, hframe, heq⟩ := Option.map_eq_some_iff.1 hunderWay
      obtain rfl : ticket' = ticket := heq
      have hdeliveries : ((w.connection i).outbox.report ticket' d).deliveries =
          reported (w.connection i).outbox.deliveries ticket' d := by
        cases ticket' <;> rfl
      rw [hb.mail.outbox] at hnow
      dsimp only at hnow
      rw [hdeliveries, get?_reported] at hnow
      split at hnow
      · next hk =>
        subst hk
        have hopen := hd.1 (Option.some.inj hnow)
        have hin : (frame', some k) ∈ transit wire (w.connection i).outbox :=
          List.mem_append_left _ (by simp [hframe])
        obtain rfl : frame' = frame := by
          rcases h.mailed.posted a k frame hpost with ⟨hin', -⟩ | ⟨hnone, -⟩
          · exact h.mailed.frame_unique hin hin'
          · exact absurd hin (hnone frame')
        rw [Wire.after, Wire.next_of_finish (by rw [hwriting]; rfl) hb.mail.writing, hframe, hopen]
        rfl
      · exact absurd hnow hnot

/-! ### Documents -/

/-- A document that is open stays so. -/
theorem Acts.version?_ne_none (ha : Acts i w w' st st')
    (h : (w.connection i).documents.version? uri ≠ none) :
    (w'.connection i).documents.version? uri ≠ none := by
  have hsame {c : Connection} (hb : Becomes i w w' c)
      (hc : c.documents = (w.connection i).documents) :
      (w'.connection i).documents.version? uri ≠ none := by
    rw [hb.mail.documents, hc]
    exact h
  cases ha with
  | aside hb => exact hsame hb rfl
  | mail _ hb => exact hsame hb rfl
  | lock _ hb => exact hsame hb rfl
  | read hb => exact hsame hb rfl
  | write hw hb => cases hw <;> exact hsame hb rfl
  | @record uri' t d hb =>
    rw [hb.mail.documents]
    dsimp only
    rw [Documents.version?]
    by_cases huri : uri' = uri
    · rw [huri, Table.get?_put_self]
      exact Option.some_ne_none _
    · rw [Table.get?_put_ne _ _ huri]
      exact h

/-! ### Runs -/

variable {doc : κ → Option String} {Q : κ → Stage → ρ → Prop} {R : Rules (World ε) κ ρ}
  {start c c' : Crew (World ε) κ ρ} {P P' : Actor → Stage} {a : Actor} {F : Json → Prop}
  {base : List Json}

theorem noteOn_ne_none : noteOn uri frame ≠ none ↔ ∃ note, noteOf frame = some (uri, note) := by
  unfold noteOn
  cases h : noteOf frame with
  | none => simp
  | some e =>
    obtain ⟨uri', note⟩ := e
    by_cases huri : uri' = uri
    · simp [huri]
    · simp [huri]

/-- Who posts a note was asked to work on its document. -/
theorem Attended.posts (h : Attended i doc Q wire P' c')
    (hgoes : Goes (discipline ε i) (fun x => Stage.first (doc x)) P c a c' P')
    (hposts : PostsFrame i k frame c.state c'.state) (hnote : noteOn uri frame ≠ none) :
    (∃ t v note, P' a = .posted uri t v note k frame) ∧
      ∃ j x p, a = .client j ∧ c'.clients[j]? = some (x, p) ∧ doc x = some uri := by
  obtain ⟨note, hof⟩ := noteOn_ne_none.1 hnote
  cases hgoes with
  | acts hacts =>
    obtain ⟨uri', t, v, note', rfl, hof'⟩ := Acts.posted hacts hposts (by simp [hof])
    obtain rfl : uri' = uri := by
      rw [hof] at hof'
      exact (Prod.mk.inj (Option.some.inj hof')).1.symm
    have hst : Function.update P a (.posted uri' t v note' k frame) a =
      .posted uri' t v note' k frame := Function.update_self ..
    refine ⟨⟨t, v, note', hst⟩, h.asked a uri' ?_⟩
    rw [hst]
    rfl
  | enters hs =>
    rw [PostsFrame, hs] at hposts
    simp at hposts
  | hands _ hhands => exact hhands.elim

variable (hR : R.Obeys (discipline ε i) (fun x => Stage.first (doc x)) Q)

include hR

/-- What is written of a document is of a kind if all notes are that are posted by those who were
asked to work on it. -/
theorem Attended.tells (h : Attended i doc Q wire P start)
    (htells : Tells uri F base wire (start.state.connection i).outbox)
    (run : Run R start moments c) (hvoices : ∀ j x p, c.clients[j]? = some (x, p) →
      doc x = some uri → Voices (.client j) i F moments) :
    ∃ P', Attended i doc Q (wire.along i moments) P' c ∧
      Tells uri F base (wire.along i moments) (c.state.connection i).outbox := by
  induction run with
  | nil => exact ⟨P, h, htells⟩
  | @move moments c c' a _ hmove ih =>
    obtain ⟨P', h', htells'⟩ := ih fun j x p hj huri m hm ha => by
      obtain ⟨q, hq⟩ := hmove.client_stays hj
      exact hvoices j x q hq huri m (List.mem_append_left _ hm) ha
    obtain ⟨P'', hgoes, h''⟩ := h'.move hR hmove
    rw [Wire.along_append, Wire.along_singleton]
    refine ⟨P'', h'', ?_⟩
    have hposts (k : Nat) (frame : Json) (hnote : noteOn uri frame ≠ none)
        (hposts : PostsFrame i k frame c.state c'.state) : F frame := by
      obtain ⟨-, j, x, p, rfl, hj, huri⟩ := h''.posts hgoes hposts hnote
      obtain ⟨note, hof⟩ := noteOn_ne_none.1 hnote
      exact hvoices j x p hj huri _ (List.mem_append_right _ (List.mem_singleton_self _)) rfl k
        frame (by simp [hof]) hposts
    cases hgoes with
    | acts hacts => exact htells'.acts h'.kept hacts hposts
    | enters hs =>
      rw [hs, Wire.after, Wire.next_of_same rfl]
      exact htells'
    | hands _ hhands => exact hhands.elim

/-- Whatever is seen in a run is what somebody did. -/
theorem Attended.acts_of_mem (h : Attended i doc Q wire P start) (run : Run R start moments c)
    (hm : m ∈ moments) : ∃ st st', Acts i m.before m.after st st' := by
  induction run with
  | nil => cases hm
  | move run hmove ih =>
    rcases List.mem_append.1 hm with hm | hm
    · exact ih hm
    · obtain rfl := List.mem_singleton.1 hm
      obtain ⟨P', h'⟩ := h.run hR run
      obtain ⟨P'', hgoes, -⟩ := h'.move hR hmove
      cases hgoes with
      | acts hacts => exact ⟨_, _, hacts⟩
      | enters hs =>
        refine ⟨.idle, .idle, ?_⟩
        rw [hs]
        exact .aside (becomes_self _)
      | hands _ hhands => exact hhands.elim

theorem Attended.there (h : Attended i doc Q wire P start) (run : Run R start moments c)
    (hm : m ∈ moments) : i < m.before.connections.length := by
  obtain ⟨before, after, rfl⟩ := List.append_of_mem hm
  obtain ⟨a, c₁, c₂, rfl, hbefore, -, -⟩ := run.split
  obtain ⟨P', h'⟩ := h.run hR hbefore
  exact h'.staged.inv

/-- One who has posted a note, and does nothing else, finds it reported to be written only when it
was. -/
theorem Attended.heard {t : Nat} {v : Option Int} {note : Note}
    (h : Attended i doc Q wire P start) (hst : P a = .posted uri t v note k frame)
    (hnot : (start.state.connection i).outbox.deliveries.get? k ≠ some .written)
    (run : Run R start moments c) (hsilent : Silent a moments) :
    ∃ P', Attended i doc Q (wire.along i moments) P' c ∧ P' a = .posted uri t v note k frame ∧
      ((c.state.connection i).outbox.deliveries.get? k = some .written →
        frame ∈ news i wire moments) := by
  -- by induction on the moves of the others: none of them takes the actor from its stage
  induction run with
  | nil => exact ⟨P, h, hst, fun hwritten => absurd hwritten hnot⟩
  | @move moments c c' b _ hmove ih =>
    obtain ⟨P', h', hst', hnews⟩ := ih fun m hm => hsilent m (List.mem_append_left _ hm)
    have hne : b ≠ a := hsilent _ (List.mem_append_right _ (List.mem_singleton_self _))
    obtain ⟨P'', hgoes, h''⟩ := h'.move hR hmove
    rw [Wire.along_append, Wire.along_singleton, news_append]
    refine ⟨P'', h'', ?_, fun hwritten => ?_⟩
    · cases hgoes with
      | acts => rwa [Function.update_of_ne hne.symm]
      | enters => rwa [Function.update_of_ne hne.symm]
      | hands _ hhands => exact hhands.elim
    · by_cases hold : (c.state.connection i).outbox.deliveries.get? k = some .written
      · exact List.mem_append_left _ (hnews hold)
      · refine List.mem_append_right _ ?_
        cases hgoes with
        | acts hacts =>
          have hwrites := h'.kept.written_of_report hst' hne hacts hold hwritten
          rw [← Wire.along_singleton, written_along] at hwrites
          rw [List.append_cancel_left hwrites]
          exact List.mem_singleton_self _
        | enters hs =>
          rw [hs] at hwritten
          exact absurd hwritten hold
        | hands _ hhands => exact hhands.elim

/-- A note that was delivered was written. -/
theorem Attended.delivered (h : Attended i doc Q wire P start) (run : Run R start moments c)
    (hdelivered : Delivered a i frame moments) (hnote : noteOn uri frame ≠ none) :
    frame ∈ news i wire moments := by
  obtain ⟨k, before, m, between, m', after, rfl, rfl, hposts, hsilent, -, hreport⟩ := hdelivered
  obtain ⟨a, c₁, c₂, rfl, hbefore, hmove, hlater⟩ := run.split
  obtain ⟨_, c₃, c₄, rfl, hbetween, -, -⟩ := hlater.split
  obtain ⟨P₁, h₁⟩ := h.run hR hbefore
  obtain ⟨P₂, hgoes, h₂⟩ := h₁.move hR hmove
  obtain ⟨⟨t, v, note, hst⟩, -⟩ := h₂.posts hgoes hposts hnote
  have hnone : (c₂.state.connection i).outbox.deliveries.get? k = none := by
    rcases h₂.kept.mailed.posted a k frame (by rw [Function.comp_apply, hst]; rfl) with
      ⟨-, hnone⟩ | ⟨hnot, -⟩
    · exact hnone
    · have hqueued : Command.send frame (some k) ∈ (c₂.state.connection i).outbox.queue := by
        rw [hposts]
        exact List.mem_append_right _ (List.mem_singleton_self _)
      have hsent : (frame, some k) ∈
          (c₂.state.connection i).outbox.queue.filterMap Command.sent? :=
        List.mem_filterMap.2 ⟨_, hqueued, rfl⟩
      exact absurd (List.mem_append_right _ hsent) (hnot frame)
  obtain ⟨-, -, -, hheard⟩ := h₂.heard hR hst (by simp [hnone]) hbetween hsilent
  rw [← List.singleton_append, ← List.append_assoc, news_append, news_append _ _ between]
  refine List.mem_append_right _ (List.mem_append_left _ ?_)
  rw [Wire.along_append, Wire.along_singleton]
  exact hheard hreport

theorem Attended.stays_open (h : Attended i doc Q wire P start) (run : Run R start moments c)
    (hopen : (start.state.connection i).documents.version? uri ≠ none) (hm : m ∈ moments) :
    (m.before.connection i).documents.version? uri ≠ none := by
  have hchain := run.chain
    (G := fun (w w' : World ε) => (w.connection i).documents.version? uri ≠ none →
      (w'.connection i).documents.version? uri ≠ none)
    (fun _ hw => hw) (fun _ _ _ hgo hgo' hw => hgo' (hgo hw)) fun m hm => by
      obtain ⟨st, st', hacts⟩ := h.acts_of_mem hR run hm
      exact hacts.version?_ne_none
  exact (hchain.2 m hm).1 hopen

omit hR in
/-- While nobody works on a document, nothing about it is in transit. -/
theorem Attended.settled (h : Attended i doc Q wire P c)
    (hleft : ∀ x st r, Q x st r → st.turn? = none)
    (hquiet : ∀ k x p, c.clients[k]? = some (x, p) → doc x = some uri → c.IsOver (.client k)) :
    Tells uri F wire.written wire (c.state.connection i).outbox := by
  refine ⟨⟨[], (List.append_nil _).symm, nofun⟩, fun e he hnote => ?_⟩
  obtain ⟨note, hof⟩ := noteOn_ne_none.1 hnote
  obtain ⟨a, k, -, hpost⟩ := h.kept.mailed.owned e.1 e.2 he (by simp [hof])
  obtain ⟨uri', t, v, note', hst⟩ := Stage.posted_of_post? hpost
  have hproper := h.kept.versioned.proper a
  rw [hst] at hproper
  obtain rfl : uri' = uri := by
    have heq := hproper.2
    rw [hof] at heq
    exact (Prod.mk.inj (Option.some.inj heq)).1.symm
  exact absurd (by rw [hst]; rfl) (h.turn?_ne hleft hquiet a t true)

end LspClient.Document
