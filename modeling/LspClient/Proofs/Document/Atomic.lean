import LspClient.Proofs.Document.Careful

/-!
# Operations that fail

An operation on a document that fails has done nothing by halves (`Atomic`). One that is cancelled
has only stood in line for the lock. One that cannot read its file has nothing to write, and leaves
the open documents as they are. And a version is recorded only if the note that tells it was
written, so that the versions go on from the one that the server knows, whatever fails in between.
-/

namespace LspClient.Document

open Program Crew

variable {ε α β : Type} {i k : Nat} {a : Actor} {uri : String} {frame : Json} {n : Int}
  {part later moments : List (Moment (World ε))}

/-! ### The operations -/

section Does

variable (huse : ∀ m ∈ moments, InUse i m.before)

include huse

theorem posting_and_documents {method : String} {params : Option Json} {r : Except Failure Unit}
    (h : Does a (Connection.notify i method params) moments (.done r)) :
    Posting a i (Message.ofNotification method params) moments r ∧
      Leaves a (documents i) moments :=
  ⟨posting_of_notify (fun m hm => (huse m hm).there) h, documents_of_notify h⟩

theorem careful_sendOpen {path : Path} {content : String} {r : Except Failure Unit}
    (h : Does a (sendOpen i uri path content) moments (.done r)) : Careful a i uri moments r := by
  obtain ⟨looking, c, rest, rfl, hlook, h⟩ := h.bind_inv
  obtain ⟨notifying, sent, rest, rfl, hnotify, h⟩ := h.bind_inv
  have hnotifying : ∀ m ∈ notifying, InUse i m.before := fun m hm => huse m (by simp [hm])
  obtain ⟨hposting, hdocuments⟩ := posting_and_documents hnotifying hnotify
  refine .after ?_ (mail_of_keeps hlook keeps_look)
  cases sent with
  | error e =>
    obtain ⟨rfl, hlast⟩ := h.pure_inv
    exact (hposting.careful hnotifying hdocuments).append hlast.leaves
  | ok _ =>
    obtain ⟨recording, _, last, rfl, hrecord, h⟩ := h.bind_inv
    obtain ⟨rfl, hlast⟩ := h.pure_inv
    have hversion : versionOf? (Message.ofNotification Method.didOpen (some (Params.didOpen uri
        (languageOf path c.languageId) Documents.firstVersion content))) =
        some (uri, Documents.firstVersion) := by
      rw [versionOf?, noteOf_didOpen]
      rfl
    rw [← List.append_assoc]
    exact (hposting.careful_record () hversion hdocuments (fun _ => ⟨_, rfl⟩) hrecord).append
      hlast.leaves

theorem careful_sendChange {current : Int} {content : String} {r : Except Failure Int}
    (h : Does a (sendChange i uri current content) moments (.done r)) :
    Careful a i uri moments r := by
  obtain ⟨notifying, sent, rest, rfl, hnotify, h⟩ := h.bind_inv
  have hnotifying : ∀ m ∈ notifying, InUse i m.before := fun m hm => huse m (by simp [hm])
  obtain ⟨hposting, hdocuments⟩ := posting_and_documents hnotifying hnotify
  cases sent with
  | error e =>
    obtain ⟨rfl, hlast⟩ := h.pure_inv
    exact ((hposting.careful hnotifying hdocuments).map fun _ => current).append hlast.leaves
  | ok _ =>
    obtain ⟨recording, _, last, rfl, hrecord, h⟩ := h.bind_inv
    obtain ⟨rfl, hlast⟩ := h.pure_inv
    have hversion : versionOf? (Message.ofNotification Method.didChange (some (Params.didChange uri
        (Documents.nextVersion current) content))) =
        some (uri, Documents.nextVersion current) := by
      rw [versionOf?, noteOf_didChange]
      rfl
    rw [← List.append_assoc]
    exact (hposting.careful_record _ hversion hdocuments (fun _ => ⟨_, rfl⟩) hrecord).append
      hlast.leaves

theorem careful_push {path : Path} {content : String} {r : Outcome}
    (h : Does a (push i uri path content) moments (.done r)) : Careful a i uri moments r := by
  obtain ⟨reading, version, rest, rfl, hread, h⟩ := h.bind_inv
  refine .after ?_ (mail_of_keeps hread keeps_version?)
  cases version with
  | none =>
    obtain ⟨sending, sent, last, rfl, hsend, h⟩ := h.bind_inv
    obtain ⟨rfl, hlast⟩ := h.pure_inv
    exact ((careful_sendOpen (fun m hm => huse m (by simp [hm])) hsend).map _).append hlast.leaves
  | some current =>
    obtain ⟨sending, sent, last, rfl, hsend, h⟩ := h.bind_inv
    obtain ⟨rfl, hlast⟩ := h.pure_inv
    exact ((careful_sendChange (fun m hm => huse m (by simp [hm])) hsend).map _).append
      hlast.leaves

/-- That a document was saved tells no version. -/
theorem unversioned_of_sendSave {content : Option String} {outcome : SyncOutcome} {r : Outcome}
    (h : Does a (do return (← sendSave i uri content).map fun () => outcome : Work ε Outcome)
      moments (.done r)) : Unversioned a i moments r := by
  obtain ⟨sending, sent, last, rfl, hsend, h⟩ := h.bind_inv
  obtain ⟨rfl, hlast⟩ := h.pure_inv
  have hsending : ∀ m ∈ sending, InUse i m.before := fun m hm => huse m (by simp [hm])
  obtain ⟨hposting, hdocuments⟩ := posting_and_documents hsending hsend
  have hnone : versionOf? (Message.ofNotification Method.didSave
      (some (Params.didSave uri content))) = none := by
    rw [versionOf?, noteOf_didSave]
    rfl
  have hvoices := voices_of_keeps (F := fun frame => versionOf? frame = none) hsend
    (postsOnly_notify hnone)
  refine ⟨hdocuments.append hlast.leaves, List.forall_mem_append.2 ⟨?_,
    not_postsVersion_of_queue hlast.leaves⟩, fun e he => ?_⟩
  · rintro m hm ⟨ha, k, frame, hposts, hversion⟩
    refine hversion (hvoices m hm ha k frame (fun hnote => hversion ?_) hposts)
    rw [versionOf?, hnote]
    rfl
  · cases sent with
    | ok _ => cases he
    | error e' =>
      cases he
      exact hposting.isFatal rfl fun m hm => (hsending m hm).ends

theorem careful_openLocked {path : Path} {r : Outcome}
    (h : Does a (openLocked i uri path) moments (.done r)) : Careful a i uri moments r := by
  obtain ⟨reading, version, rest, rfl, hversion, h⟩ := h.bind_inv
  refine .after ?_ (mail_of_keeps hversion keeps_version?)
  cases version with
  | some _ =>
    obtain ⟨rfl, hlast⟩ := h.pure_inv
    exact .of_mail hlast.leaves nofun
  | none =>
    refine careful_read h (fun _ => rfl) fun content rest hrest h => ?_
    cases content with
    | none =>
      obtain ⟨rfl, hlast⟩ := h.pure_inv
      exact .of_mail hlast.leaves nofun
    | some content =>
      obtain ⟨sending, sent, last, rfl, hsend, h⟩ := h.bind_inv
      obtain ⟨rfl, hlast⟩ := h.pure_inv
      have hsending : ∀ m ∈ sending, InUse i m.before := fun m hm =>
        huse m (List.mem_append_right _ (hrest.subset (List.mem_append_left _ hm)))
      exact ((careful_sendOpen hsending hsend).map _).append hlast.leaves

theorem careful_syncLocked {path : Path} {content : String} {r : Outcome}
    (h : Does a (syncLocked i uri path content) moments (.done r)) :
    Careful a i uri moments r := by
  obtain ⟨dropping, _, rest, rfl, hdrop, h⟩ := h.bind_inv
  exact (careful_push (fun m hm => huse m (by simp [hm])) h).after
    (mail_of_keeps hdrop keeps_invalidate)

theorem careful_saveLocked {path : Path} {r : Outcome}
    (h : Does a (saveLocked i uri path) moments (.done r)) : Careful a i uri moments r := by
  obtain ⟨reading, version, rest, rfl, hversion, h⟩ := h.bind_inv
  refine .after ?_ (mail_of_keeps hversion keeps_version?)
  cases version with
  | none =>
    obtain ⟨rfl, hlast⟩ := h.pure_inv
    exact .of_mail hlast.leaves nofun
  | some _ =>
    obtain ⟨looking, c, rest, rfl, hlook, h⟩ := h.bind_inv
    refine .after ?_ (mail_of_keeps hlook keeps_look)
    have hrest : ∀ m ∈ rest, InUse i m.before := fun m hm => huse m (by simp [hm])
    change Does a (if c.wantsTextOnSave = true then _ else _) rest (.done r) at h
    split at h
    · refine careful_read h (fun _ => rfl) fun content saving hsaving h => ?_
      exact (unversioned_of_sendSave (fun m hm => hrest m (hsaving.subset hm)) h).careful
    · exact (unversioned_of_sendSave hrest h).careful

theorem careful_refreshLocked {path : Path} {r : Outcome}
    (h : Does a (refreshLocked i uri path) moments (.done r)) : Careful a i uri moments r := by
  refine careful_read h (fun _ => rfl) fun content rest hrest h => ?_
  replace huse : ∀ m ∈ rest, InUse i m.before := fun m hm => huse m (hrest.subset hm)
  cases content with
  | none =>
    obtain ⟨rfl, hlast⟩ := h.pure_inv
    exact .of_mail hlast.leaves nofun
  | some content =>
    obtain ⟨pushing, pushed, rest, rfl, hpush, h⟩ := h.bind_inv
    have hpushing := careful_push (fun m hm => huse m (by simp [hm])) hpush
    cases pushed with
    | error e =>
      obtain ⟨rfl, hlast⟩ := h.pure_inv
      exact hpushing.append hlast.leaves
    | ok outcome =>
      obtain ⟨looking, c, saving, rfl, hlook, h⟩ := h.bind_inv
      exact hpushing.unversioned ((unversioned_of_sendSave (fun m hm => huse m (by simp [hm]))
        h).after (mail_of_keeps hlook keeps_look))

theorem careful_locked {x : Ask} {r : Outcome}
    (h : Does a (Ask.locked i (x, uri)) moments (.done r)) : Careful a i uri moments r := by
  obtain ⟨operation, path, token⟩ := x
  cases operation with
  | ensureOpen => exact careful_openLocked huse h
  | syncContent content => exact careful_syncLocked huse h
  | notifySaved => exact careful_saveLocked huse h
  | refresh => exact careful_refreshLocked huse h

end Does

/-! ### Versions while a note is on its way -/

section Run

variable {κ ρ : Type} {doc : κ → Option String} {Q : κ → Stage → ρ → Prop}
  {R : Rules (World ε) κ ρ} {start c : Crew (World ε) κ ρ} {P : Actor → Stage} {wire : Wire}
  {w w' : World ε} {st st' : Stage} {note : Note}

theorem Acts.documents_of_posts (ha : Acts i w w' st st') (hposts : PostsFrame i k frame w w') :
    documents i w' = documents i w := by
  unfold documents
  cases ha with
  | aside hb => exact hb.mail.documents
  | mail _ hb => exact hb.mail.documents
  | lock _ hb => exact hb.mail.documents
  | read hb => exact hb.mail.documents
  | record hb =>
    rw [PostsFrame, hb.mail.outbox] at hposts
    simp at hposts
  | write hw hb =>
    rw [hb.mail.documents]
    cases hw <;> rfl

variable (hR : R.Obeys (discipline ε i) (fun x => Stage.first (doc x)) Q)

include hR

theorem Attended.stays (h : Attended i doc Q wire P start) (run : Run R start moments c)
    (hsilent : Silent a moments) :
    ∃ P', Attended i doc Q (wire.along i moments) P' c ∧ P' a = P a := by
  induction run with
  | nil => exact ⟨P, h, rfl⟩
  | @move moments c c' b _ hmove ih =>
    obtain ⟨P', h', heq⟩ := ih fun m hm => hsilent m (List.mem_append_left _ hm)
    have hne : b ≠ a := hsilent _ (List.mem_append_right _ (List.mem_singleton_self _))
    obtain ⟨P'', hgoes, h''⟩ := h'.move hR hmove
    refine ⟨P'', by rwa [Wire.along_append, Wire.along_singleton], ?_⟩
    cases hgoes with
    | acts => rwa [Function.update_of_ne hne.symm]
    | enters => rwa [Function.update_of_ne hne.symm]
    | hands _ hhands => exact hhands.elim

/-- A note that is posted comes next after the version that is recorded, which stays until one hears
of the note. -/
theorem Attended.continues {m : Moment (World ε)} {between : List (Moment (World ε))}
    (h : Attended i doc Q wire P start) (run : Run R start (part ++ m :: (between ++ later)) c)
    (ha : m.actor = a) (hsilent : Silent a between)
    (hposts : PostsFrame i k frame m.before m.after) (hnote : noteOf frame = some (uri, note)) :
    note.Next ((documents i m.before).version? uri) ∧ ∀ m' ∈ m :: between,
      (documents i m'.after).version? uri = (documents i m.before).version? uri := by
  obtain ⟨b, c₁, c₂, rfl, hpart, hmove, hafter⟩ := run.split
  obtain rfl : b = a := ha
  obtain ⟨P₁, h₁⟩ := h.run hR hpart
  obtain ⟨P₂, hgoes, h₂⟩ := h₁.move hR hmove
  -- the note is posted by an actor that holds the lock and knows the version
  obtain ⟨⟨t, v, note', hst⟩, -⟩ := h₂.posts hgoes hposts (noteOn_ne_none.2 ⟨note, hnote⟩)
  have hdocuments : documents i c₂.state = documents i c₁.state := by
    cases hgoes with
    | acts hacts => exact hacts.documents_of_posts hposts
    | enters hs => rw [hs]
    | hands _ hhands => exact hhands.elim
  have hproper := h₂.kept.versioned.proper b
  rw [hst] at hproper
  obtain ⟨hnext, hof⟩ := hproper
  obtain rfl : note' = note := by
    rw [hnote] at hof
    exact (Prod.mk.inj (Option.some.inj hof)).2.symm
  have hknown : (documents i c₂.state).version? uri = v :=
    h₂.kept.versioned.known b uri v (by rw [hst]; rfl)
  dsimp only
  rw [← hdocuments, hknown]
  refine ⟨hnext, fun m' hm' => ?_⟩
  rcases List.mem_cons.1 hm' with rfl | hm'
  · exact hknown
  -- while it waits for the answer its stage stays, and with it the version it knows
  · obtain ⟨front, back, rfl⟩ := List.append_of_mem hm'
    rw [List.append_assoc, List.cons_append] at hafter
    obtain ⟨b', c₃, c₄, rfl, hfront, hmove', -⟩ := hafter.split
    have hrun : Run R c₂ (front ++ [⟨b', c₃.state, c₄.state⟩]) c₄ := hfront.move hmove'
    obtain ⟨P₄, h₄, hstays⟩ := h₂.stays hR hrun fun m hm => hsilent m (by
      rcases List.mem_append.1 hm with hm | hm
      · exact List.mem_append_left _ hm
      · exact List.mem_append_right _ (List.mem_singleton.1 hm ▸ List.mem_cons_self ..))
    exact h₄.kept.versioned.known b uri v (by rw [hstays, hst]; rfl)

end Run

/-! ### Calls -/

/-- What a call has done that took place in the moments and returned the result. -/
structure Atomic (i : Nat) (x : Ask) (a : Actor) (past moments : Moments ε) (w w' : World ε)
    (r : Outcome) : Prop where
  cancelled : r = .error .cancelled → Withdrawn a i moments w w'
  unread : ∀ path message, r = .error (.file path message) → Leaves a (mail i) moments
  /-- The server is told of at most one version. -/
  once : AtMostOne (PostsVersion a i) moments
  /-- The open documents only change by the version of a note that was written. -/
  records : ∀ m ∈ moments, m.actor = a → documents i m.after ≠ documents i m.before →
    ∃ uri d, x.uri? = some uri ∧ documents i m.after = (documents i m.before).put uri d ∧
      ToldVersion a i uri d.version moments
  /-- If the version could not be told, they do not change. -/
  unwritten : Unwritten a i moments → Leaves a (documents i) moments
  /-- A note comes next after the version that is recorded, which stays until the call hears of the
  note. -/
  continues : ∀ front m between back k frame uri note, moments = front ++ m :: (between ++ back) →
    m.actor = a → Silent a between → PostsFrame i k frame m.before m.after →
    noteOf frame = some (uri, note) → note.Next ((documents i m.before).version? uri) ∧
      ∀ m' ∈ m :: between,
        (documents i m'.after).version? uri = (documents i m.before).version? uri
  /-- Whatever has failed, the versions that the server was told go up without a gap. -/
  orderly : ∀ uri, Orderly (logOf uri (written i (past ++ moments)))

/-- What a call does by itself. -/
theorem does_program {x : Ask} {r : Outcome} (huse : ∀ m ∈ moments, InUse i m.before)
    (h : Does a (x.program i) moments (.done r)) :
    (∃ uri, x.uri? = some uri ∧ Careful a i uri moments r) ∨
    (Leaves a (mail i) moments ∧ (r = .error (.invalidUri x.path) ∨
      r = .error .cancelled ∧ ∃ uri ticket, Withdraws a i uri ticket moments)) := by
  cases huri : Uri.ofPath x.path with
  | error e =>
    have hprogram : (x.program i : Work ε Outcome) = pure (.error e) := by
      unfold Ask.program ensureOpen syncContent notifySaved refresh
      rw [huri]
      cases x.operation <;> rfl
    rw [hprogram] at h
    obtain ⟨rfl, hsilent⟩ := h.pure_inv
    have he : e = .invalidUri x.path := by
      unfold Uri.ofPath at huri
      split at huri
      · cases huri
      · exact (Except.error.inj huri).symm
    exact .inr ⟨hsilent.leaves, .inl (he ▸ rfl)⟩
  | ok uri =>
    rw [Ask.program_of_uri huri] at h
    rcases does_withLock_cases (fun m hm => (huse m hm).there) h with
      ⟨before, part, after, rfl, hpart, hbefore, hafter⟩ | ⟨hr, ticket, hwithdraws⟩
    · have hcareful := careful_locked (fun m hm => huse m (by simp [hm])) hpart
      exact .inl ⟨uri, by rw [Ask.uri?, huri]; rfl,
        (hcareful.append (mail_of_unlocked hafter)).after (mail_of_unlocked hbefore)⟩
    · exact .inr ⟨mail_of_unlocked hwithdraws.spared, .inr ⟨hr, uri, ticket, hwithdraws⟩⟩

theorem atomic {w : World ε} {options : ConnectionOptions} {input output uptime : Nat}
    {process : Option Nat} (hi : i < w.connections.length)
    (hnew : w.connection i = Connection.make options input output process uptime)
    {past : Moments ε} {c c' : Crew (World ε) Errand (Option Outcome)} {x : Ask} {r : Outcome}
    (before : Run (errandRules ε i) (ofState w) past c)
    (hbegun : c.clients[k]? = some (.document x, Errand.program i (.document x)))
    (run : Run (errandRules ε i) c moments c')
    (hover : c'.clients[k]? = some (.document x, .done (some r))) :
    Atomic i x (.client k) past moments c.state c'.state r := by
  have hR := obeys_errandRules ε i
  have hmade : Attended i Errand.uri? NoTurn _ _ (ofState w) := attended_make hi hnew
  obtain ⟨P, h⟩ := hmade.run hR before
  obtain ⟨P', h'⟩ := h.run hR run
  have hends : ((ofState w : Crew (World ε) Errand (Option Outcome)).state.connection
      i).calls.EndsClosed := by
    change (w.connection i).calls.EndsClosed
    rw [hnew]
    nofun
  obtain ⟨hkeeps, hends, -⟩ := endsAsClosed_along (allKeep_ofState w) hends before
  obtain ⟨-, -, hends⟩ := endsAsClosed_along hkeeps hends run
  have huse : ∀ m ∈ moments, InUse i m.before := fun m hm => ⟨h.there hR run hm, hends m hm⟩
  -- the client's program is the operation, and what comes after it is silent
  have hdoes : Does (.client k) (x.program i) moments (.done r) := by
    obtain ⟨q, hq, hdoes⟩ := run.does hbegun
    cases hover.symm.trans hq
    obtain ⟨working, outcome, last, rfl, hwork, hdoes⟩ := hdoes.bind_inv
    obtain ⟨heq, hlast⟩ := hdoes.pure_inv
    cases heq
    exact hwork.silent hlast
  have htidy : (c.state.connection i).locks.Tidy := by
    refine (hmade.later hR before).1.tidy ?_
    change (w.connection i).locks.Tidy
    rw [hnew]
    exact Locks.tidy_empty
  have hcases := does_program huse hdoes
  have honce : AtMostOne (PostsVersion (.client k) i) moments := by
    -- the caller had its turn in full, or gave up in line and posted nothing
    rcases hcases with ⟨uri, -, hcareful⟩ | ⟨hmail, -⟩
    · exact hcareful.once
    · exact atMostOne_of_none (not_postsVersion_of_queue (queue_of_mail hmail))
  have hrecords : ∀ m ∈ moments, m.actor = .client k → documents i m.after ≠ documents i m.before →
      ∃ uri d, x.uri? = some uri ∧ documents i m.after = (documents i m.before).put uri d ∧
        ToldVersion (.client k) i uri d.version moments := fun m hm ha hne => by
    rcases hcases with ⟨uri, huri, hcareful⟩ | ⟨hmail, -⟩
    · obtain ⟨d, hd, htold⟩ := (hcareful.records m hm ha).resolve_left hne
      exact ⟨uri, d, huri, hd, htold⟩
    · exact absurd (documents_of_mail hmail m hm ha) hne
  exact {
    cancelled := fun hr => by
      rcases hcases with ⟨uri, -, hcareful⟩ | ⟨-, heq | ⟨-, uri, ticket, hwithdraws⟩⟩
      · rcases hcareful.fails _ hr with hfatal | ⟨⟨_, _, heq⟩, -⟩
        · cases hfatal
        · cases heq
      · cases hr.symm.trans heq
      · exact hwithdraws.withdrawn hR h run htidy
    unread := fun path message hr => by
      rcases hcases with ⟨uri, -, hcareful⟩ | ⟨hmail, -⟩
      · exact ((hcareful.fails _ hr).resolve_left nofun).2
      · exact hmail
    once := honce
    records := hrecords
    unwritten := fun hunwritten m hm ha => by
      by_contra hne
      obtain ⟨uri, d, -, -, htold⟩ := hrecords m hm ha hne
      exact hunwritten.not_told honce htold
    continues := fun _ _ _ _ _ _ _ _ heq => h.continues hR (heq ▸ run)
    orderly := by
      have horderly := h'.kept.versioned.orderly
      rwa [← Wire.along_append] at horderly }

/-! ### A call that is cancelled while another one has the lock -/

def cancellable : Ask := ⟨.syncContent "b", ⟨"/a.rs"⟩, [7]⟩

/-- The first call has the lock when the second one begins. -/
def firstHolds : List (Choice (errandRules Unit 0)) :=
  [.enter (.document (sync "a")), .client 0, .client 0, .enter (.document cancellable)]

def cancelSecond : List (Choice (errandRules Unit 0)) :=
  [.client 1, .outside (World.cancel 7) fun _ => .of_eq (Nat.le_refl _) rfl, .client 1, .client 1]

def secondBegun : Crew (World Unit) Errand (Option Outcome) :=
  (play firstHolds ([], Crew.ofState Connection.alone)).2

def secondOver : Crew (World Unit) Errand (Option Outcome) :=
  (play cancelSecond ([], secondBegun)).2

theorem atomic_cancelSecond :
    secondOver.clients[1]? = some (.document cancellable, .done (some (.error .cancelled))) ∧
      Atomic 0 cancellable (.client 1) (play firstHolds ([], Crew.ofState Connection.alone)).1
        (play cancelSecond ([], secondBegun)).1 secondBegun.state secondOver.state
        (.error .cancelled) := by
  have hi : 0 < Connection.alone.connections.length := Nat.zero_lt_one
  have hbegun : secondBegun.clients[1]? =
      some (.document cancellable, Errand.program 0 (.document cancellable)) := rfl
  have hover : secondOver.clients[1]? =
      some (.document cancellable, .done (some (.error .cancelled))) := rfl
  exact ⟨hover, atomic hi rfl (run_play firstHolds .nil) hbegun (run_play cancelSecond .nil) hover⟩

end LspClient.Document
