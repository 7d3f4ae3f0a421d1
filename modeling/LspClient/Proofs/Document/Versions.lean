import LspClient.Proofs.Document.Obeying

/-!
# Versions

What ties the versions that a connection has recorded to those that the server was told
(`Versioned`). They are the same, unless somebody holds the lock of the document who has had the
next one written and is still to record it (`Stage.ahead?`). So a note that gets written comes next,
and the log of its document stays in order (`Versioned.write`).
-/

namespace LspClient.Document

open Program

/-! ### What is written -/

/-- What a connection has written, and the frame that it is writing. -/
structure Wire where
  written : List Json
  underWay : Option (Json × Option Nat)

/-- A frame is under way from when it is taken from the queue. When it is under way no more it is
written, unless the other end was closed. -/
def Wire.next (wire : Wire) (closed : Bool) (c c' : Connection) : Wire :=
  if !c.writing.isSome && c'.writing.isSome then
    { wire with underWay := c.outbox.queue.head?.bind Command.sent? }
  else if c.writing.isSome && !c'.writing.isSome then
    { written := if closed then wire.written
        else wire.written ++ (wire.underWay.map (·.1)).toList
      underWay := none }
  else wire

/-- The note of a frame, if it is about the document. -/
def noteOn (uri : String) (frame : Json) : Option Note :=
  (noteOf frame).bind fun e => if e.1 = uri then some e.2 else none

/-- What the server was told of a document. -/
def logOf (uri : String) (frames : List Json) : List Note := frames.filterMap (noteOn uri)

/-- What is being written or is queued. -/
def transit (wire : Wire) (o : Outbox) : List (Json × Option Nat) :=
  wire.underWay.toList ++ o.queue.filterMap Command.sent?

section Wire

variable {wire : Wire} {closed : Bool} {c c' : Connection}

theorem Wire.next_of_same (h : c'.writing.isSome = c.writing.isSome) :
    wire.next closed c c' = wire := by
  rw [next, h]
  cases c.writing.isSome <;> rfl

theorem Wire.next_of_begin (h : c.writing = none) (h' : c'.writing.isSome = true) :
    wire.next closed c c' =
      { wire with underWay := c.outbox.queue.head?.bind Command.sent? } := by
  rw [next, h, h']
  rfl

theorem Wire.next_of_finish (h : c.writing.isSome = true) (h' : c'.writing = none) :
    wire.next closed c c' =
      { written := if closed then wire.written
          else wire.written ++ (wire.underWay.map (·.1)).toList
        underWay := none } := by
  rw [next, h, h']
  rfl

end Wire

theorem logOf_append (uri : String) (frames : List Json) (frame : Json) :
    logOf uri (frames ++ [frame]) = logOf uri frames ++ (noteOn uri frame).toList := by
  unfold logOf
  rw [List.filterMap_append]
  cases h : noteOn uri frame with
  | none => rw [List.filterMap_cons_none h]; rfl
  | some note => rw [List.filterMap_cons_some h]; rfl

/-! ### Stages -/

namespace Stage

/-- The version that one knows the document to have. -/
def known? : Stage → Option (String × Option Int)
  | .knows uri _ v | .inLine uri _ v _ _ | .posted uri _ v _ _ _ => some (uri, v)
  | _ => none

/-- The version that one has had written and is still to record. -/
def ahead? (deliveries : Table Nat Delivery) : Stage → Option (String × Int)
  | .told uri _ n => some (uri, n)
  | .posted uri _ _ note k _ =>
    if deliveries.get? k = some .written then note.version?.map fun n => (uri, n) else none
  | _ => none

variable {st : Stage} {uri : String} {deliveries deliveries' : Table Nat Delivery}

theorem turn?_of_known? {v : Option Int} (h : st.known? = some (uri, v)) :
    ∃ t, st.turn? = some ⟨uri, t, true⟩ := by
  cases st <;> cases h <;> exact ⟨_, rfl⟩

theorem turn?_of_ahead? {n : Int} (h : st.ahead? deliveries = some (uri, n)) :
    ∃ t, st.turn? = some ⟨uri, t, true⟩ := by
  cases st with
  | told uri' t n' =>
    cases h
    exact ⟨t, rfl⟩
  | posted uri' t v note k frame =>
    obtain ⟨-, heq⟩ := Option.ite_none_right_eq_some.1 h
    obtain ⟨n', -, heq⟩ := Option.map_eq_some_iff.1 heq
    cases heq
    exact ⟨t, rfl⟩
  | _ => cases h

theorem posted_of_post? {k : Nat} {frame : Json}
    (h : st.post? = some (.posted k (some frame))) :
    ∃ uri t v note, st = .posted uri t v note k frame := by
  cases st <;> cases h
  exact ⟨_, _, _, _, rfl⟩

/-- Whether one is ahead hangs on the report on one's own note. -/
theorem ahead?_congr (h : ∀ k frame, st.post? = some (.posted k (some frame)) →
      (deliveries'.get? k = some .written ↔ deliveries.get? k = some .written)) :
    st.ahead? deliveries' = st.ahead? deliveries := by
  cases st with
  | posted uri t v note k frame =>
    exact if_congr (h k frame rfl) rfl rfl
  | _ => rfl

end Stage

/-! ### Versions -/

structure Versioned (P : Actor → Stage) (deliveries : Table Nat Delivery)
    (documents : Documents) (log : String → List Note) : Prop where
  proper : ∀ a, (P a).Proper
  known : ∀ a uri v, (P a).known? = some (uri, v) → documents.version? uri = v
  orderly : ∀ uri, Orderly (log uri)
  ahead : ∀ a uri n, (P a).ahead? deliveries = some (uri, n) →
    lastVersion? (log uri) = some n
  level : ∀ uri, (∀ a n, (P a).ahead? deliveries ≠ some (uri, n)) →
    lastVersion? (log uri) = documents.version? uri

variable {P : Actor → Stage} {a : Actor} {st' : Stage} {deliveries deliveries' : Table Nat Delivery}
  {documents : Documents} {log : String → List Note} {sent : List (Json × Option Nat)}
  {next k : Nat} {ticket : Option Nat} {frame : Json} {note : Note} {uri : String}

/-- One goes on, and nothing is written or recorded. -/
theorem Versioned.update (h : Versioned P deliveries documents log) (hproper : st'.Proper)
    (hknown : ∀ uri v, st'.known? = some (uri, v) → documents.version? uri = v)
    (hself : st'.ahead? deliveries' = (P a).ahead? deliveries)
    (hothers : ∀ b, b ≠ a → (P b).ahead? deliveries' = (P b).ahead? deliveries) :
    Versioned (Function.update P a st') deliveries' documents log := by
  have hahead (b : Actor) : (Function.update P a st' b).ahead? deliveries' =
      (P b).ahead? deliveries := by
    by_cases hb : b = a
    · subst hb
      rw [Function.update_self, hself]
    · rw [Function.update_of_ne hb, hothers b hb]
  constructor
  case proper =>
    exact (Function.forall_update_iff P fun _ => Stage.Proper).2 ⟨hproper, fun b _ => h.proper b⟩
  case known =>
    intro b uri v hv
    rcases of_update (fun st : Stage => st.known? = some (uri, v)) hv with ⟨-, hv⟩ | ⟨-, hv⟩
    · exact hknown uri v hv
    · exact h.known b uri v hv
  case orderly => exact h.orderly
  case ahead =>
    intro b uri n hn
    rw [hahead] at hn
    exact h.ahead b uri n hn
  case level =>
    intro uri hnone
    simp only [hahead] at hnone
    exact h.level uri hnone

theorem Versioned.congr (h : Versioned P deliveries documents log)
    (hahead : ∀ b, (P b).ahead? deliveries' = (P b).ahead? deliveries) :
    Versioned P deliveries' documents log := by
  have hupdate := h.update (a := .outside) (h.proper _) (h.known _) (hahead _) fun b _ => hahead b
  rwa [Function.update_eq_self] at hupdate

/-- A report that a frame was not written puts nobody ahead. -/
theorem ahead?_of_not_written {d : Delivery}
    (hm : Mailed (Stage.post? ∘ P) sent deliveries next) (hd : d ≠ .written)
    (hin : (frame, ticket) ∈ sent) (b : Actor) :
    (P b).ahead? (reported deliveries ticket d) = (P b).ahead? deliveries := by
  refine Stage.ahead?_congr fun k frame' hk => ?_
  rw [get?_reported]
  split
  · next heq =>
    subst heq
    rcases hm.posted b k frame' hk with ⟨-, hnone⟩ | ⟨hnot, -⟩
    · rw [hnone]
      exact ⟨fun h => absurd (Option.some.inj h) hd, fun h => by cases h⟩
    · exact absurd hin (hnot frame)
  · rfl

/-- To drop what is queued. -/
theorem Versioned.drop {before sent : List (Json × Option Nat)}
    (hm : Mailed (Stage.post? ∘ P) (before ++ sent) deliveries next)
    (hv : Versioned P deliveries documents log) :
    Mailed (Stage.post? ∘ P) before (dropped sent deliveries) next ∧
      Versioned P (dropped sent deliveries) documents log := by
  induction sent generalizing deliveries with
  | nil =>
    rw [List.append_nil] at hm
    exact ⟨hm, hv⟩
  | cons e sent ih =>
    have hin : (e.1, e.2) ∈ before ++ e :: sent :=
      List.mem_append_right _ (List.mem_cons_self ..)
    exact ih hm.report (hv.congr (ahead?_of_not_written hm nofun hin))

theorem noteOn_of_ne {uri' : String} (h : noteOf frame = some (uri, note)) (hne : uri ≠ uri') :
    noteOn uri' frame = none := by
  rw [noteOn, h]
  exact if_neg hne

theorem noteOn_self (h : noteOf frame = some (uri, note)) : noteOn uri frame = some note := by
  rw [noteOn, h]
  exact if_pos rfl

/-- Who is ahead after a frame is written: the one whose note it is, and those before. -/
theorem ahead?_of_written (hm : Mailed (Stage.post? ∘ P) ((frame, ticket) :: sent) deliveries next)
    (b : Actor) : (P b).ahead? (reported deliveries ticket .written) = (P b).ahead? deliveries ∨
      ∃ uri t v note k, ticket = some k ∧ P b = .posted uri t v note k frame := by
  by_cases hb : ∃ k, ticket = some k ∧ (P b).post? = some (.posted k (some frame))
  · obtain ⟨k, rfl, hpost⟩ := hb
    obtain ⟨uri, t, v, note, hst⟩ := Stage.posted_of_post? hpost
    exact .inr ⟨uri, t, v, note, k, rfl, hst⟩
  · refine .inl (Stage.ahead?_congr fun k frame' hk => ?_)
    rw [get?_reported]
    split
    · next heq =>
      subst heq
      rcases hm.posted b k frame' hk with ⟨hin, -⟩ | ⟨hnot, -⟩
      · obtain rfl := hm.frame_unique hin (List.mem_cons_self ..)
        exact absurd ⟨k, rfl, hk⟩ hb
      · exact absurd (List.mem_cons_self ..) (hnot frame)
    · rfl

/-- At most one holds the lock of a document. -/
def OneHolds (P : Actor → Stage) : Prop :=
  ∀ a a' uri t t', (P a).turn? = some ⟨uri, t, true⟩ → (P a').turn? = some ⟨uri, t', true⟩ → a = a'

/-- Who holds the lock is the only one that may be ahead. -/
theorem OneHolds.eq_of_ahead? (ho : OneHolds P) {b : Actor} {t : Nat} {n : Int}
    (hturn : (P a).turn? = some ⟨uri, t, true⟩)
    (hahead : (P b).ahead? deliveries = some (uri, n)) : b = a := by
  obtain ⟨t', hturn'⟩ := Stage.turn?_of_ahead? hahead
  exact ho b a uri t' t hturn' hturn

/-- A frame that is no note is written. -/
theorem Versioned.write_other (hnote : noteOf frame = none)
    (hm : Mailed (Stage.post? ∘ P) ((frame, ticket) :: sent) deliveries next)
    (hv : Versioned P deliveries documents log) :
    Versioned P (reported deliveries ticket .written) documents log := by
  refine hv.congr fun b => (ahead?_of_written hm b).resolve_right ?_
  rintro ⟨uri, t, v, note, k, rfl, hst⟩
  have hproper := hv.proper b
  rw [hst] at hproper
  cases hnote.symm.trans hproper.2

/-- As long as a note is in transit, what the server was told last is the version that its owner
knows. -/
theorem Versioned.lastVersion?_of_posted (ho : OneHolds P)
    (hv : Versioned P deliveries documents log) {t : Nat} {v : Option Int}
    (hst : P a = .posted uri t v note k frame) (hnone : deliveries.get? k = none) :
    lastVersion? (log uri) = v := by
  have hknown : documents.version? uri = v := hv.known a uri v (by rw [hst]; rfl)
  rw [← hknown]
  refine hv.level uri fun b n hb => ?_
  obtain rfl := ho.eq_of_ahead? (by rw [hst]; rfl) hb
  rw [hst] at hb
  obtain ⟨hwritten, -⟩ := Option.ite_none_right_eq_some.1 hb
  cases hnone.symm.trans hwritten

/-- A note is written. Its owner holds the lock and knows the version that the server was told
last, so the note comes next. -/
theorem Versioned.write_note (ho : OneHolds P)
    (hm : Mailed (Stage.post? ∘ P) ((frame, some k) :: sent) deliveries next)
    (hv : Versioned P deliveries documents log) {t : Nat} {v : Option Int}
    (hst : P a = .posted uri t v note k frame) :
    Versioned P (reported deliveries (some k) .written) documents
      fun uri' => log uri' ++ (noteOn uri' frame).toList := by
  have hpost : (Stage.post? ∘ P) a = some (.posted k (some frame)) := by
    rw [Function.comp_apply, hst]
    rfl
  have hturn : (P a).turn? = some ⟨uri, t, true⟩ := by rw [hst]; rfl
  have hknown : documents.version? uri = v := hv.known a uri v (by rw [hst]; rfl)
  have hproper := hv.proper a
  rw [hst] at hproper
  obtain ⟨hnext, hof⟩ := hproper
  -- the frame is still on its way, so nothing was reported of it
  have hnone : deliveries.get? k = none := by
    rcases hm.posted a k frame hpost with ⟨-, hnone⟩ | ⟨hnot, -⟩
    · exact hnone
    · exact absurd (List.mem_cons_self ..) (hnot frame)
  -- its actor was not ahead, so what was told last is what is recorded
  have hlast := hv.lastVersion?_of_posted ho hst hnone
  have hself : (P a).ahead? deliveries = none := by
    rw [hst]
    exact if_neg (by simp [hnone])
  have hself' : (P a).ahead? (reported deliveries (some k) .written) =
      note.version?.map fun n => (uri, n) := by
    rw [hst]
    exact if_pos (by rw [get?_reported, if_pos rfl])
  -- a written frame puts no one ahead but the actor that posted it
  have hsame (b : Actor) (hb : b ≠ a) :
      (P b).ahead? (reported deliveries (some k) .written) = (P b).ahead? deliveries := by
    refine (ahead?_of_written hm b).resolve_right ?_
    rintro ⟨uri', t', v', note', k', heq, hst'⟩
    cases heq
    refine hb (hm.unique b a (.posted k (some frame)) _ ?_ hpost rfl)
    rw [Function.comp_apply, hst']
    rfl
  have hlog (uri' : String) (huri : uri ≠ uri') :
      log uri' ++ (noteOn uri' frame).toList = log uri' := by
    rw [noteOn_of_ne hof huri]
    exact List.append_nil _
  constructor
  case proper => exact hv.proper
  case known => exact hv.known
  case orderly =>
    intro uri'
    by_cases huri : uri = uri'
    · subst huri
      rw [noteOn_self hof]
      exact (hv.orderly uri).append (by rwa [hlast])
    · rw [hlog uri' huri]
      exact hv.orderly uri'
  case ahead =>
    intro b uri' n hb
    by_cases hba : b = a
    · subst hba
      rw [hself'] at hb
      obtain ⟨n', hn', heq⟩ := Option.map_eq_some_iff.1 hb
      cases heq
      rw [noteOn_self hof]
      exact (lastVersion?_append _ note).trans (by rw [hn']; rfl)
    · rw [hsame b hba] at hb
      rw [hlog uri' fun huri => hba (ho.eq_of_ahead? (huri ▸ hturn) hb)]
      exact hv.ahead b uri' n hb
  case level =>
    intro uri' hlevel
    by_cases huri : uri = uri'
    · subst huri
      have hversion : note.version? = none := by
        cases hn : note.version? with
        | none => rfl
        | some n => exact absurd (by rw [hself', hn]; rfl) (hlevel a n)
      rw [noteOn_self hof]
      refine (lastVersion?_append _ note).trans ?_
      rw [hversion, hlast, hknown]
      rfl
    · rw [hlog uri' huri]
      refine hv.level uri' fun b n hb => ?_
      by_cases hba : b = a
      · subst hba
        cases hself.symm.trans hb
      · exact hlevel b n (by rw [hsame b hba, hb])

theorem Versioned.write (ho : OneHolds P)
    (hm : Mailed (Stage.post? ∘ P) ((frame, ticket) :: sent) deliveries next)
    (hv : Versioned P deliveries documents log) :
    Versioned P (reported deliveries ticket .written) documents
      fun uri => log uri ++ (noteOn uri frame).toList := by
  cases hnote : noteOf frame with
  | none =>
    have hlog (uri : String) : log uri ++ (noteOn uri frame).toList = log uri := by
      rw [noteOn, hnote]
      exact List.append_nil _
    simp only [hlog]
    exact hv.write_other hnote hm
  | some e =>
    have hne : noteOf frame ≠ none := by simp [hnote]
    obtain ⟨a, k, rfl, hpost⟩ := hm.owned frame ticket (List.mem_cons_self ..) hne
    obtain ⟨uri, t, v, note, hst⟩ := Stage.posted_of_post? hpost
    exact hv.write_note ho hm hst

/-- A version is recorded that was told to the one who holds the lock. -/
theorem Versioned.record {t : Nat} {d : OpenDocument} (ho : OneHolds P)
    (hv : Versioned P deliveries documents log) (hst : P a = .told uri t d.version) :
    Versioned (Function.update P a (.knows uri t (some d.version))) deliveries
      (documents.put uri d) log := by
  have hturn : (P a).turn? = some ⟨uri, t, true⟩ := by rw [hst]; rfl
  have hself : Documents.version? (documents.put uri d) uri = some d.version := by
    rw [Documents.version?, Table.get?_put_self]
    rfl
  have hother {uri' : String} (hne : uri ≠ uri') :
      Documents.version? (documents.put uri d) uri' = documents.version? uri' := by
    rw [Documents.version?, Table.get?_put_ne _ _ hne]
    rfl
  constructor
  case proper =>
    exact (Function.forall_update_iff P fun _ => Stage.Proper).2 ⟨trivial, fun b _ => hv.proper b⟩
  case known =>
    intro b uri' v hk
    rcases of_update (fun st : Stage => st.known? = some (uri', v)) hk with ⟨-, hk⟩ | ⟨hb, hk⟩
    · cases hk
      exact hself
    · obtain ⟨t', hturn'⟩ := Stage.turn?_of_known? hk
      -- no other actor has its turn at the URI
      have hne : uri ≠ uri' := by
        rintro rfl
        exact hb (ho b a uri t' t hturn' hturn)
      rw [hother hne]
      exact hv.known b uri' v hk
  case orderly => exact hv.orderly
  case ahead =>
    intro b uri' n hb
    rcases of_update (fun st : Stage => st.ahead? deliveries = some (uri', n)) hb with
      ⟨-, hb⟩ | ⟨-, hb⟩
    · cases hb
    · exact hv.ahead b uri' n hb
  case level =>
    intro uri' hlevel
    by_cases huri : uri = uri'
    -- the actor was ahead with this version, and the record catches up with it
    · subst huri
      rw [hself]
      exact hv.ahead a uri d.version (by rw [hst]; rfl)
    · rw [hother huri]
      refine hv.level uri' fun b n hb => ?_
      by_cases hba : b = a
      · subst hba
        rw [hst] at hb
        cases hb
        exact huri rfl
      · exact hlevel b n (by rw [Function.update_of_ne hba, hb])

end LspClient.Document
