import LspClient.Proofs.Document.Withdrawing

/-!
# Notes and the versions they tell

A version is recorded only if the note that tells it was written (`Records`). A notification posts
its note at most once, and what it answers tells whether the note was written (`Posting`). What is
then made of the open documents goes on from the parts of an operation to the whole of it
(`Careful`).
-/

namespace LspClient.Document

open Program Crew

variable {ε α β : Type} {i k : Nat} {a : Actor} {uri : String} {frame : Json} {n : Int}
  {part later moments : List (Moment (World ε))}

/-! ### What is told and recorded -/

/-- The version of a document that a frame tells. -/
def versionOf? (frame : Json) : Option (String × Int) :=
  (noteOf frame).bind fun e => e.2.version?.map fun n => (e.1, n)

def documents (i : Nat) (w : World ε) : Documents := (w.connection i).documents

/-- The open documents, and all that is to be written. -/
def mail (i : Nat) (w : World ε) : Documents × Outbox × Option (List UInt8 × Option Nat) :=
  ((w.connection i).documents, (w.connection i).outbox, (w.connection i).writing)

/-- In the moment the actor posts a note that tells a version. -/
def PostsVersion (a : Actor) (i : Nat) (m : Moment (World ε)) : Prop :=
  m.actor = a ∧ ∃ k frame, PostsFrame i k frame m.before m.after ∧ versionOf? frame ≠ none

/-- A note that tells the version was posted by the actor, and was written. -/
def ToldVersion (a : Actor) (i : Nat) (uri : String) (n : Int)
    (moments : List (Moment (World ε))) : Prop :=
  ∃ frame, versionOf? frame = some (uri, n) ∧ Delivered a i frame moments

theorem ToldVersion.mono (h : ToldVersion a i uri n part) (hpart : part <:+: moments) :
    ToldVersion a i uri n moments := by
  obtain ⟨frame, hframe, hdelivered⟩ := h
  exact ⟨frame, hframe, hdelivered.mono hpart⟩

/-- The open documents are as they were, or a version is put that the server was told. -/
def Records (a : Actor) (i : Nat) (uri : String) (moments : List (Moment (World ε)))
    (m : Moment (World ε)) : Prop :=
  documents i m.after = documents i m.before ∨ ∃ d : OpenDocument,
    documents i m.after = (documents i m.before).put uri d ∧ ToldVersion a i uri d.version moments

theorem Records.mono {m : Moment (World ε)} (h : Records a i uri part m)
    (hpart : part <:+: moments) : Records a i uri moments m :=
  h.imp_right fun ⟨d, hd, htold⟩ => ⟨d, hd, htold.mono hpart⟩

/-- No two of the moments are of a kind. -/
def AtMostOne (p : Moment (World ε) → Prop) (moments : List (Moment (World ε))) : Prop :=
  moments.Pairwise fun m m' => ¬ (p m ∧ p m')

section AtMostOne

variable {p : Moment (World ε) → Prop}

theorem atMostOne_of_none (h : ∀ m ∈ moments, ¬ p m) : AtMostOne p moments :=
  List.pairwise_of_forall_mem_list fun m hm _ _ hp => h m hm hp.1

theorem AtMostOne.append (h : AtMostOne p moments) (hlater : ∀ m ∈ later, ¬ p m) :
    AtMostOne p (moments ++ later) :=
  List.pairwise_append.2 ⟨h, atMostOne_of_none hlater, fun _ _ m' hm' hp => hlater m' hm' hp.2⟩

theorem AtMostOne.after (h : AtMostOne p moments) (hpart : ∀ m ∈ part, ¬ p m) :
    AtMostOne p (part ++ moments) :=
  List.pairwise_append.2 ⟨atMostOne_of_none hpart, h, fun m hm _ _ hp => hpart m hm hp.1⟩

theorem AtMostOne.not_before {m : Moment (World ε)} (h : AtMostOne p (part ++ m :: later))
    (hm : p m) : ∀ m' ∈ part, ¬ p m' := fun m' hm' hp =>
  (List.pairwise_append.1 h).2.2 m' hm' m (List.mem_cons_self ..) ⟨hp, hm⟩

/-- The first of a kind is one. -/
theorem first_unique {m m' : Moment (World ε)} {part' later' : List (Moment (World ε))}
    (heq : part ++ m :: later = part' ++ m' :: later') (hpart : ∀ x ∈ part, ¬ p x)
    (hpart' : ∀ x ∈ part', ¬ p x) (hm : p m) (hm' : p m') : m = m' ∧ later = later' := by
  rcases List.append_eq_append_iff.1 heq with ⟨front, rfl, hrest⟩ | ⟨front, rfl, hrest⟩
  · cases front with
    | nil => exact List.cons.inj hrest
    | cons x front =>
      obtain rfl := (List.cons.inj hrest).1
      exact absurd hm (hpart' m (by simp))
  · cases front with
    | nil =>
      obtain ⟨rfl, rfl⟩ := List.cons.inj hrest
      exact ⟨rfl, rfl⟩
    | cons x front =>
      obtain rfl := (List.cons.inj hrest).1
      exact absurd hm' (hpart m' (by simp))

end AtMostOne

/-- A version that was to be told was not: no note that tells it was posted, or one was, and is
reported otherwise than written. -/
inductive Unwritten (a : Actor) (i : Nat) (moments : List (Moment (World ε))) : Prop
  | unposted (h : ∀ m ∈ moments, ¬ PostsVersion a i m)
  | reported {front between back : List (Moment (World ε))} {m m' : Moment (World ε)} {k : Nat}
      {frame : Json} (heq : moments = front ++ m :: (between ++ m' :: back)) (hm : m.actor = a)
      (hposts : PostsFrame i k frame m.before m.after) (hversion : versionOf? frame ≠ none)
      (hsilent : Silent a between) (hm' : m'.actor = a)
      (hreport : (m'.before.connection i).outbox.deliveries.get? k ≠ some .written)

/-- Of one version at most it is heard whether it was written. -/
theorem Unwritten.not_told (h : Unwritten a i moments)
    (honce : AtMostOne (PostsVersion a i) moments)
    (htold : ToldVersion a i uri n moments) : False := by
  obtain ⟨frame, hframe, k, front, m, between, m', back, heq, hm, hposts, hsilent, hm', hreport⟩ :=
    htold
  have hversion : PostsVersion a i m := ⟨hm, k, frame, hposts, by simp [hframe]⟩
  cases h with
  | unposted h => exact h m (by simp [heq]) hversion
  | @reported front₂ between₂ back₂ m₂ m₂' k₂ frame₂ heq₂ hm₂ hposts₂ hversion₂ hsilent₂ hm₂'
      hreport₂ =>
    have hpost₂ : PostsVersion a i m₂ := ⟨hm₂, k₂, frame₂, hposts₂, hversion₂⟩
    obtain ⟨rfl, hrest⟩ := first_unique (heq.symm.trans heq₂) ((heq ▸ honce).not_before hversion)
      ((heq₂ ▸ honce).not_before hpost₂) hversion hpost₂
    obtain ⟨rfl, -⟩ := first_unique (p := fun m => m.actor = a) hrest hsilent hsilent₂ hm' hm₂'
    rw [PostsFrame, hposts] at hposts₂
    obtain ⟨-, rfl⟩ : frame = frame₂ ∧ k = k₂ := by
      simpa using List.append_cancel_left hposts₂
    exact hreport₂ hreport

/-! ### Moments without a word -/

theorem mail_unlocked (i : Nat) (w : World ε) : mail i (unlocked i w) = mail i w := by
  unfold mail unlocked
  rcases Connection.connection_setConnection_cases w i
    { w.connection i with locks := .empty } with heq | heq <;> rw [heq]

theorem mail_of_unlocked (h : Leaves a (unlocked i) moments) : Leaves a (mail i) moments :=
  h.of_eq fun w w' heq => by rw [← mail_unlocked i w', heq, mail_unlocked]

theorem mail_of_aside {w w' : World ε} (h : Connection.Aside i w w') : mail i w' = mail i w := by
  unfold mail
  rw [h.apart.mail.documents, h.apart.mail.outbox, h.apart.mail.writing]

theorem mail_of_keeps {p q : Work ε α} (h : Does a p moments q)
    (hp : Keeps (Connection.Aside i) p) : Leaves a (mail i) moments :=
  h.leaves (hp.mono fun _ _ => mail_of_aside)

theorem queue_of_mail (h : Leaves a (mail i) moments) : Leaves a (queue i) moments :=
  h.of_eq fun _ _ heq => congrArg (fun e => e.2.1.queue) heq

theorem documents_of_mail (h : Leaves a (mail i) moments) : Leaves a (documents i) moments :=
  h.of_eq fun _ _ heq => congrArg Prod.fst heq

theorem not_postsVersion_of_queue (h : Leaves a (queue i) moments) :
    ∀ m ∈ moments, ¬ PostsVersion a i m := by
  rintro m hm ⟨ha, k, frame, hposts, -⟩
  have heq := h m hm ha
  rw [PostsFrame] at hposts
  unfold queue at heq
  rw [heq] at hposts
  simp at hposts

/-! ### Notifications -/

theorem isFatal_of_isClosed {e : Failure} (h : e.IsClosed) : e.isFatal = true := by
  cases e <;> first | rfl | cases h

namespace Posting

variable {r : Except Failure Unit}

/-- Only the connection is to blame. -/
theorem isFatal (h : Posting a i frame moments r) {e : Failure} (he : r = .error e)
    (hends : ∀ m ∈ moments, (m.before.connection i).calls.EndsClosed) : e.isFatal = true := by
  cases h with
  | refused hmem =>
    cases he
    exact isFatal_of_isClosed (Calls.isClosed_closedError (hends _ hmem))
  | @reported k m m' before between after d heq =>
    cases d with
    | written => cases he
    | failed message =>
      cases he
      rfl
    | dropped =>
      cases he
      exact isFatal_of_isClosed (Calls.isClosed_closedError (hends m' (by simp [heq])))

theorem once (h : Posting a i frame moments r) : AtMostOne (PostsVersion a i) moments := by
  cases h with
  | refused _ _ h => exact atMostOne_of_none (not_postsVersion_of_queue h)
  | @reported k m m' before between after d heq hm hposts hsilent hm' hd hbefore hafter =>
    subst heq
    have hone : AtMostOne (PostsVersion a i) [m] := List.pairwise_singleton ..
    have hrest : Leaves a (queue i) (between ++ m' :: after) := hsilent.leaves.append hafter
    exact (hone.append (not_postsVersion_of_queue hrest)).after (not_postsVersion_of_queue hbefore)

end Posting

theorem documents_of_notify {method : String} {params : Option Json} {q : Work ε _}
    (h : Does a (Connection.notify i method params) moments q) :
    Leaves a (documents i) moments := by
  refine h.leaves (Connection.keeps_notify (fun w w' h => ?_) fun w w' h => ?_)
  · exact h.apart.mail.documents
  · obtain ⟨outbox, writing, heq⟩ := h.connection
    unfold documents
    rw [heq]

/-! ### Parts of an operation -/

/-- A part of an operation tells a version at most once, and records it only if it was written. It
fails with the connection, or cannot read a file before it has anything to say. -/
structure Careful (a : Actor) (i : Nat) (uri : String) (moments : List (Moment (World ε)))
    (r : Except Failure α) : Prop where
  once : AtMostOne (PostsVersion a i) moments
  records : ∀ m ∈ moments, m.actor = a → Records a i uri moments m
  fails : ∀ e, r = .error e → e.isFatal = true ∨
    (∃ path message, e = .file path message) ∧ Leaves a (mail i) moments

namespace Careful

variable {r : Except Failure α}

theorem of_mail (h : Leaves a (mail i) moments)
    (hr : ∀ e, r = .error e → ∃ path message, e = .file path message) :
    Careful a i uri moments r where
  once := atMostOne_of_none (not_postsVersion_of_queue (queue_of_mail h))
  records m hm ha := .inl (documents_of_mail h m hm ha)
  fails e he := .inr ⟨hr e he, h⟩

theorem after (h : Careful a i uri moments r) (hpart : Leaves a (mail i) part) :
    Careful a i uri (part ++ moments) r where
  once := h.once.after (not_postsVersion_of_queue (queue_of_mail hpart))
  records m hm ha := by
    rcases List.mem_append.1 hm with hm | hm
    · exact .inl (documents_of_mail hpart m hm ha)
    · exact (h.records m hm ha).mono (List.suffix_append ..).isInfix
  fails e he := (h.fails e he).imp_right fun ⟨hfile, hleaves⟩ => ⟨hfile, hpart.append hleaves⟩

theorem append (h : Careful a i uri moments r) (hlater : Leaves a (mail i) later) :
    Careful a i uri (moments ++ later) r where
  once := h.once.append (not_postsVersion_of_queue (queue_of_mail hlater))
  records m hm ha := by
    rcases List.mem_append.1 hm with hm | hm
    · exact (h.records m hm ha).mono (List.prefix_append ..).isInfix
    · exact .inl (documents_of_mail hlater m hm ha)
  fails e he := (h.fails e he).imp_right fun ⟨hfile, hleaves⟩ => ⟨hfile, hleaves.append hlater⟩

theorem map (h : Careful a i uri moments r) (f : α → β) : Careful a i uri moments (r.map f) where
  once := h.once
  records := h.records
  fails e he := by
    cases r with
    | ok x => cases he
    | error e' =>
      cases he
      exact h.fails e rfl

end Careful

/-- No version is told or recorded, and only the connection is to blame for a failure. -/
structure Unversioned (a : Actor) (i : Nat) (moments : List (Moment (World ε)))
    (r : Except Failure α) : Prop where
  documents : Leaves a (documents i) moments
  posts : ∀ m ∈ moments, ¬ PostsVersion a i m
  fatal : ∀ e, r = .error e → e.isFatal = true

namespace Unversioned

variable {r : Except Failure α}

theorem after (h : Unversioned a i moments r) (hpart : Leaves a (mail i) part) :
    Unversioned a i (part ++ moments) r where
  documents := (documents_of_mail hpart).append h.documents
  posts := List.forall_mem_append.2 ⟨not_postsVersion_of_queue (queue_of_mail hpart), h.posts⟩
  fatal := h.fatal

theorem careful (h : Unversioned a i moments r) : Careful a i uri moments r where
  once := atMostOne_of_none h.posts
  records m hm ha := .inl (h.documents m hm ha)
  fails e he := .inl (h.fatal e he)

end Unversioned

/-- The version was told before. -/
theorem Careful.unversioned {r : Except Failure α} {r' : Except Failure β}
    (h : Careful a i uri moments r) (hlater : Unversioned a i later r') :
    Careful a i uri (moments ++ later) r' where
  once := h.once.append hlater.posts
  records m hm ha := by
    rcases List.mem_append.1 hm with hm | hm
    · exact (h.records m hm ha).mono (List.prefix_append ..).isInfix
    · exact .inl (hlater.documents m hm ha)
  fails e he := .inl (hlater.fatal e he)

/-- The connection is there, and if it ends, it is with nothing but that. -/
structure InUse (i : Nat) (w : World ε) : Prop where
  there : i < w.connections.length
  ends : (w.connection i).calls.EndsClosed

theorem Posting.careful {r : Except Failure Unit} (h : Posting a i frame moments r)
    (huse : ∀ m ∈ moments, InUse i m.before) (hdocuments : Leaves a (documents i) moments) :
    Careful a i uri moments r where
  once := h.once
  records m hm ha := .inl (hdocuments m hm ha)
  fails _ he := .inl (h.isFatal he fun m hm => (huse m hm).ends)

/-- A version may be recorded after the note that tells it was written. -/
theorem Posting.careful_record {f : Connection → Connection} {u : Unit} (x : α)
    (h : Posting a i frame part (.ok ())) (hversion : versionOf? frame = some (uri, n))
    (hdocuments : Leaves a (documents i) part)
    (hf : ∀ c, ∃ languageId, f c = record uri ⟨n, languageId⟩ c)
    (hrecord : Does a (update (World.onConnection i f) : Work ε Unit) later (.done u)) :
    Careful a i uri (part ++ later) (.ok x : Except Failure α) where
  once := by
    refine h.once.append (not_postsVersion_of_queue (hrecord.leaves (Keeps.update fun w => ?_)))
    obtain ⟨languageId, heq⟩ := hf (w.connection i)
    exact queue_setConnection (heq ▸ rfl)
  records m hm ha := by
    rcases List.mem_append.1 hm with hm | hm
    · exact .inl (hdocuments m hm ha)
    · obtain ⟨frame', rfl, hdelivered⟩ := h.sent.delivered () rfl
      have htold : ToldVersion a i uri n (part ++ later) :=
        ⟨frame', hversion, hdelivered.mono (List.prefix_append ..).isInfix⟩
      obtain ⟨before, m', after, rfl, hbefore, hafter, -, hs⟩ := hrecord.act_inv
      rcases List.mem_append.1 hm with hm | hm
      · exact absurd ha (hbefore m hm)
      · rcases List.mem_cons.1 hm with rfl | hm
        · obtain ⟨-, hset⟩ := Prod.mk.inj hs
          obtain ⟨languageId, heq⟩ := hf (m.before.connection i)
          rw [World.onConnection, heq] at hset
          unfold Records documents
          rw [← hset]
          rcases Connection.connection_setConnection_cases m.before i
            (record uri ⟨n, languageId⟩ (m.before.connection i)) with hput | hsame
          · rw [hput]
            exact .inr ⟨⟨n, languageId⟩, rfl, htold⟩
          · rw [hsame]
            exact .inl rfl
        · exact absurd ha (hafter m hm)
  fails := nofun

theorem keeps_version? : Keeps (Connection.Aside i) (version? i uri : Work ε (Option Int)) :=
  Keeps.bind keeps_look fun _ => Keeps.pure _

theorem keeps_invalidate :
    Keeps (Connection.Aside i) (update (World.onConnection i (invalidate uri)) : Work ε Unit) :=
  Keeps.update fun _ => .setConnection
    ⟨⟨rfl, rfl, rfl, rfl, rfl⟩, DiagnosticsCache.loses_invalidate _ uri, id, id⟩

/-- A file that cannot be read ends it. -/
theorem careful_read {path : Path} {r : Outcome}
    {next : Except Failure (Option String) → Work ε Outcome}
    (h : Does a (readIfExists path >>= next) moments (.done r))
    (hfailed : ∀ e, next (.error e) = pure (.error e))
    (hnext : ∀ content rest, rest <:+ moments → Does a (next (.ok content)) rest (.done r) →
      Careful a i uri rest r) : Careful a i uri moments r := by
  obtain ⟨reading, read, rest, rfl, hread, h⟩ := h.bind_inv
  refine .after ?_ (mail_of_keeps hread (keeps_readIfExists path))
  cases read with
  | ok content => exact hnext content rest (List.suffix_append ..) h
  | error e =>
    obtain ⟨w, -, hreadAs⟩ := does_readIfExists hread
    cases hreadAs
    rw [hfailed] at h
    obtain ⟨rfl, hlast⟩ := h.pure_inv
    exact .of_mail hlast.leaves fun _ he => ⟨_, _, (Except.error.inj he).symm⟩

end LspClient.Document
