import LspClient.Document.Sync
import LspClient.Proofs.Connection.Parts
import LspClient.Proofs.Document.Mail
import LspClient.Proofs.Document.Notes
import LspClient.Proofs.Document.Turns

/-!
# Working on documents

What one does to a connection who works on one of its documents: one gets in line for the lock,
holds it, reads the version, posts a note that comes next, hears that it is written, records its
version, and gives the lock back (`Acts`). What is sent is sent from the stage one is at, and one
hears what became of it.
-/

namespace LspClient

open Program

namespace Document

open Connection (SameMail Aside)

variable {ε α β : Type} {i : Nat} {w w' : World ε} {uri : String} {t k : Nat}
  {v : Option Int} {note : Note} {frame : Json}

/-- Where one stands with a document. One who has read its version knows it as long as the lock is
held; one to whom a version was told has had it written, and is to record it. -/
inductive Stage where
  | idle
  | line (k : Nat)
  | posts (k : Nat)
  | asks (uri : String)
  | waits (uri : String) (t : Nat)
  | holds (uri : String) (t : Nat)
  | knows (uri : String) (t : Nat) (v : Option Int)
  | inLine (uri : String) (t : Nat) (v : Option Int) (note : Note) (k : Nat)
  | posted (uri : String) (t : Nat) (v : Option Int) (note : Note) (k : Nat) (frame : Json)
  | told (uri : String) (t : Nat) (n : Int)
  | over (uri : String)

namespace Stage

/-- The document that one works on, has worked on, or is about to. -/
def task : Stage → Option String
  | .idle | .line _ | .posts _ => none
  | .asks uri | .waits uri _ | .holds uri _ | .knows uri _ _ | .inLine uri _ _ _ _
  | .posted uri _ _ _ _ _ | .told uri _ _ | .over uri => some uri

def turn? : Stage → Option Turn
  | .waits uri t => some ⟨uri, t, false⟩
  | .holds uri t | .knows uri t _ | .inLine uri t _ _ _ | .posted uri t _ _ _ _
  | .told uri t _ => some ⟨uri, t, true⟩
  | .idle | .line _ | .posts _ | .asks _ | .over _ => none

def post? : Stage → Option Post
  | .line k | .inLine _ _ _ _ k => some (.inLine k)
  | .posts k => some (.posted k none)
  | .posted _ _ _ _ k frame => some (.posted k (some frame))
  | _ => none

/-- A note that is posted is the one of its frame, and comes next. -/
def Proper : Stage → Prop
  | .inLine _ _ v note _ => note.Next v
  | .posted uri _ v note _ frame => note.Next v ∧ noteOf frame = some (uri, note)
  | _ => True

end Stage

/-- Where one stands who has heard what became of a note. -/
def heard (uri : String) (t : Nat) (v : Option Int) (note : Note) (d : Delivery) : Stage :=
  if d = .written then note.version?.elim (.knows uri t v) (.told uri t) else .knows uri t v

/-! ### Actions -/

/-- The connection is as it was, or as the step has made it, in all that concerns documents. -/
structure Becomes (i : Nat) (w w' : World ε) (c : Connection) : Prop where
  mail : SameMail c (w'.connection i)
  length : w.connections.length ≤ w'.connections.length

inductive Mails : Stage → Outbox → Stage → Outbox → Prop
  | join {o : Outbox} : Mails .idle o (.line o.nextTicket) o.join.2
  | joinNote {o : Outbox} {uri : String} {t : Nat} {v : Option Int} {note : Note}
      (h : note.Next v) :
      Mails (.knows uri t v) o (.inLine uri t v note o.nextTicket) o.join.2
  | leave {o : Outbox} {k : Nat} : Mails (.line k) o .idle (o.leave k)
  | leaveNote {o : Outbox} {uri : String} {t k : Nat} {v : Option Int} {note : Note} :
      Mails (.inLine uri t v note k) o (.knows uri t v) (o.leave k)
  | queue {o o' : Outbox} {k : Nat} {command : Command} (h : command.Plain)
      (ho : o.takeIn k command = some o') : Mails (.line k) o .idle o'
  | post {o o' : Outbox} {k : Nat} {frame : Json} (h : noteOf frame = none)
      (ho : o.takeIn k (.send frame (some k)) = some o') : Mails (.line k) o (.posts k) o'
  | postNote {o o' : Outbox} {uri : String} {t k : Nat} {v : Option Int} {note : Note}
      {frame : Json} (h : noteOf frame = some (uri, note))
      (ho : o.takeIn k (.send frame (some k)) = some o') :
      Mails (.inLine uri t v note k) o (.posted uri t v note k frame) o'
  | collect {o o' : Outbox} {k : Nat} {d : Delivery} (ho : o.collect k = some (d, o')) :
      Mails (.posts k) o .idle o'
  | forget {o : Outbox} {k : Nat} : Mails (.posts k) o .idle (o.leave k)
  | hear {o o' : Outbox} {uri : String} {t k : Nat} {v : Option Int} {note : Note}
      {frame : Json} {d : Delivery} (ho : o.collect k = some (d, o')) :
      Mails (.posted uri t v note k frame) o (heard uri t v note d) o'
  | offer {o : Outbox} {st : Stage} {frame : Json} (h : noteOf frame = none) :
      Mails st o st (o.offer (.send frame none))

inductive Locking : Stage → Locks → Stage → Locks → Prop
  | join {l : Locks} {uri : String} :
      Locking (.asks uri) l (.waits uri (l.join uri).1) (l.join uri).2
  | acquire {l l' : Locks} {uri : String} {t : Nat} (hl : l.acquire t = some l') :
      Locking (.waits uri t) l (.holds uri t) l'
  | leave {l : Locks} {uri : String} {t : Nat} :
      Locking (.waits uri t) l (.over uri) (l.release t)
  | release {l : Locks} {uri : String} {t : Nat} :
      Locking (.holds uri t) l (.over uri) (l.release t)
  | releaseKnown {l : Locks} {uri : String} {t : Nat} {v : Option Int} :
      Locking (.knows uri t v) l (.over uri) (l.release t)

/-- All that is queued is dropped. -/
structure Closes (o o' : Outbox) : Prop where
  queue : o'.queue = []
  deliveries : o'.deliveries = dropped (o.queue.filterMap Command.sent?) o.deliveries
  nextTicket : o'.nextTicket = o.nextTicket

/-- What writing does to a connection whose output is closed or not. -/
inductive Writes (c : Connection) (closed : Bool) : Connection → Prop
  | begin {frame : Json} {ticket : Option Nat} {rest : List Command} {bytes : List UInt8}
      (hw : c.writing = none) (hq : c.outbox.queue = .send frame ticket :: rest) :
      Writes c closed
        { c with outbox := { c.outbox with queue := rest }, writing := some (bytes, ticket) }
  | goOn {bytes bytes' : List UInt8} {ticket : Option Nat}
      (hw : c.writing = some (bytes, ticket)) :
      Writes c closed { c with writing := some (bytes', ticket) }
  | finish {bytes : List UInt8} {ticket : Option Nat} {d : Delivery}
      (hw : c.writing = some (bytes, ticket)) (hd : d = .written ↔ closed = false) :
      Writes c closed { c with writing := none, outbox := c.outbox.report ticket d }
  | close {o : Outbox} (ho : Closes c.outbox o) : Writes c closed { c with outbox := o }

inductive Acts (i : Nat) (w w' : World ε) : Stage → Stage → Prop
  | aside {st : Stage} (h : Becomes i w w' (w.connection i)) : Acts i w w' st st
  | mail {st st' : Stage} {o : Outbox} (hm : Mails st (w.connection i).outbox st' o)
      (h : Becomes i w w' { w.connection i with outbox := o }) : Acts i w w' st st'
  | lock {st st' : Stage} {l : Locks} (hl : Locking st (w.connection i).locks st' l)
      (h : Becomes i w w' { w.connection i with locks := l }) : Acts i w w' st st'
  | read {uri : String} {t : Nat} (h : Becomes i w w' (w.connection i)) :
      Acts i w w' (.holds uri t)
        (.knows uri t ((w.connection i).documents.version? uri))
  | record {uri : String} {t : Nat} {d : OpenDocument}
      (h : Becomes i w w'
        { w.connection i with documents := (w.connection i).documents.put uri d }) :
      Acts i w w' (.told uri t d.version) (.knows uri t (some d.version))
  | write {st : Stage} {c : Connection}
      (hw : Writes (w.connection i) (w.pipe (w.connection i).output).sinkClosed c)
      (h : Becomes i w w' c) : Acts i w w' st st

theorem Acts.length_le {st st' : Stage} (h : Acts i w w' st st') :
    w.connections.length ≤ w'.connections.length := by
  cases h with
  | aside h => exact h.length
  | mail _ h => exact h.length
  | lock _ h => exact h.length
  | read h => exact h.length
  | record h => exact h.length
  | write _ h => exact h.length

theorem becomes_self (w : World ε) : Becomes i w w (w.connection i) :=
  ⟨.refl _, Nat.le_refl _⟩

theorem becomes_setConnection (hi : i < w.connections.length) (c : Connection) :
    Becomes i w (w.setConnection i c) c := by
  refine ⟨?_, Nat.le_of_eq (List.length_set).symm⟩
  have heq : (w.setConnection i c).connection i = c := by
    simp [World.connection, World.setConnection, List.getElem?_set_self hi]
  rw [heq]
  exact .refl c

def discipline (ε : Type) (i : Nat) : Discipline (World ε) Stage where
  Inv w := i < w.connections.length
  Acts st w w' st' := Acts i w w' st st'
  idle := .idle
  Ends st := st = .idle
  inv_of_acts h hacts := Nat.lt_of_lt_of_le h hacts.length_le
  acts_self _ := .aside (becomes_self _)

/-- `drop` drops a command. -/
structure Drops (drop : Outbox → Command → Outbox) : Prop where
  deliveries : ∀ o command, (drop o command).deliveries =
    dropped (Command.sent? command).toList o.deliveries
  nextTicket : ∀ o command, (drop o command).nextTicket = o.nextTicket

theorem Drops.foldl {drop : Outbox → Command → Outbox} (h : Drops drop) (queue : List Command)
    (o : Outbox) : (queue.foldl drop o).deliveries =
        dropped (queue.filterMap Command.sent?) o.deliveries ∧
      (queue.foldl drop o).nextTicket = o.nextTicket := by
  induction queue generalizing o with
  | nil => exact ⟨rfl, rfl⟩
  | cons command queue ih =>
    obtain ⟨hdeliveries, hnext⟩ := ih (drop o command)
    rw [List.foldl_cons, hdeliveries, hnext, h.deliveries, h.nextTicket]
    refine ⟨?_, rfl⟩
    cases hsent : Command.sent? command with
    | none => rw [List.filterMap_cons_none hsent]; rfl
    | some e => rw [List.filterMap_cons_some hsent]; rfl

theorem closes_of_drops {drop : Outbox → Command → Outbox} (h : Drops drop) (o : Outbox) :
    Closes o { o.queue.foldl drop o with queue := [], closed := true } :=
  ⟨rfl, (h.foldl o.queue o).1, (h.foldl o.queue o).2⟩

theorem closes_close (o : Outbox) : Closes o o.close := by
  refine closes_of_drops ⟨fun o command => ?_, fun o command => ?_⟩ o
  all_goals
    cases command with
    | send frame ticket => cases ticket <;> rfl
    | shutdown => rfl

/-- To close the stream on request leaves nothing to be written either. -/
theorem closes_shutdown {o : Outbox} {rest : List Command} (ho : o.queue = .shutdown :: rest) :
    Closes o { o with queue := rest }.close := by
  have h := closes_close { o with queue := rest }
  refine ⟨h.queue, ?_, h.nextTicket⟩
  rw [ho]
  exact h.deliveries

/-! ### Steps -/

theorem neutral_aside (h : Aside i w w') : (discipline ε i).Neutral w w' :=
  fun _ _ => .aside ⟨h.apart.mail, Nat.le_of_eq h.length.symm⟩

theorem follows_aside {p : Work ε α} {st : Stage} (h : Keeps (Aside i) p) :
    Follows (discipline ε i) p st fun st' _ => st' = st :=
  (h.mono fun _ _ => neutral_aside).follows

/-- A step on the outbox. -/
theorem follows_mail {f : Connection → α × Connection} {st : Stage} {Q : Stage → α → Prop}
    (h : ∀ c, ∃ st' o, Mails st c.outbox st' o ∧ (f c).2 = { c with outbox := o } ∧
      Q st' (f c).1) : Follows (discipline ε i) (Work.onConnection i f) st Q := by
  refine Follows.act fun w hi => ?_
  obtain ⟨st', o, hm, heq, hQ⟩ := h (w.connection i)
  refine ⟨st', .mail hm ?_, hQ⟩
  rw [← heq]
  exact becomes_setConnection hi _

theorem follows_lock {f : Connection → α × Connection} {st : Stage} {Q : Stage → α → Prop}
    (h : ∀ c, ∃ st' l, Locking st c.locks st' l ∧ (f c).2 = { c with locks := l } ∧
      Q st' (f c).1) : Follows (discipline ε i) (Work.onConnection i f) st Q := by
  refine Follows.act fun w hi => ?_
  obtain ⟨st', l, hl, heq, hQ⟩ := h (w.connection i)
  refine ⟨st', .lock hl ?_, hQ⟩
  rw [← heq]
  exact becomes_setConnection hi _

/-- A wait within a limit ends with its step, or leaves one where one is. -/
theorem follows_within {limit : Limit} {step : World ε → Option (α × World ε)} {st : Stage}
    {Q : Stage → Except Failure α → Prop}
    (hstep : ∀ w a w', i < w.connections.length → step w = some (a, w') →
      ∃ st', Acts i w w' st st' ∧ Q st' (.ok a))
    (hcut : ∀ e, limit ≠ Limit.never → Q st (.error e)) :
    Follows (discipline ε i) (Work.within limit step) st Q := by
  refine Follows.await fun w r w' hi hs => ?_
  split at hs
  · next hcancelled =>
    cases hs
    refine ⟨st, .aside (becomes_self w), hcut _ ?_⟩
    rintro rfl
    cases hcancelled
  · split at hs
    · next a w'' ha =>
      cases hs
      exact hstep w a w' hi ha
    · obtain ⟨e, he, heq⟩ := Option.map_eq_some_iff.1 hs
      cases heq
      refine ⟨st, .aside (becomes_self w), hcut e ?_⟩
      rintro rfl
      cases he

/-! ### Sending -/

/-- Where one stands after a step that succeeds or not. -/
def settled (yes no : Stage) (r : Except Failure α) : Stage :=
  if r.isOk then yes else no

/-- To wait for one's turn in line, and leave the line if the wait is cut short. -/
theorem follows_enqueue {command : Command} {limit : Limit} {st yes no : Stage}
    (hin : ∀ o o', Outbox.takeIn o k command = some o' → Mails st o yes o')
    (hout : ∀ o : Outbox, Mails st o no (o.leave k)) :
    Follows (discipline ε i) (Connection.enqueue i k command limit) st
      fun st' r => st' = settled yes no r := by
  have hwait : Follows (discipline ε i) (Work.within limit (Connection.stepOn i fun c =>
      c.takeIn k command)) st fun st' r =>
        (∃ r', r = .ok r' ∧ st' = settled yes no r') ∨ ∃ e, r = .error e ∧ st' = st := by
    refine follows_within (fun w r w' hi hs => ?_) fun e _ => .inr ⟨e, rfl, rfl⟩
    obtain ⟨⟨r', c'⟩, hc', heq⟩ := Option.map_eq_some_iff.1 hs
    cases heq
    change (w.connection i).takeIn k command = some (r, c') at hc'
    unfold Connection.takeIn at hc'
    split at hc'
    · cases hc'
      exact ⟨no, .mail (hout _) (becomes_setConnection hi _), .inl ⟨_, rfl, rfl⟩⟩
    · obtain ⟨o, ho, heq⟩ := Option.map_eq_some_iff.1 hc'
      cases heq
      exact ⟨yes, .mail (hin _ o ho) (becomes_setConnection hi _), .inl ⟨_, rfl, rfl⟩⟩
  refine hwait.bind fun st' r hst => ?_
  cases r with
  | ok r =>
    rcases hst with ⟨r', heq, rfl⟩ | ⟨e, heq, -⟩
    · cases heq
      rfl
    · cases heq
  -- who gives up in line leaves it by a step of its own
  | error e =>
    rcases hst with ⟨r', heq, -⟩ | ⟨e', -, rfl⟩
    · cases heq
    · have hleave : Follows (discipline ε i)
          (update (World.onConnection i (Connection.leave k))) st' fun st'' _ => st'' = no := by
        change Follows _ (Work.onConnection i fun c => ((), Connection.leave k c)) _ _
        exact follows_mail fun c => ⟨no, c.outbox.leave k, hout _, rfl, rfl⟩
      exact hleave.bind fun st'' _ hst => hst

/-- To send a frame that is no note. -/
theorem follows_send {limit : Limit} (hframe : noteOf frame = none) :
    Follows (discipline ε i) (Connection.send i frame limit) .idle fun st' _ => st' = .idle := by
  have hjoin : Follows (discipline ε i) (Work.onConnection i Connection.join) .idle
      fun st' k => st' = .line k :=
    follows_mail fun c => ⟨_, _, .join, rfl, rfl⟩
  refine hjoin.bind fun st' k hst => ?_
  subst hst
  refine (follows_enqueue (fun o o' => .post hframe) fun o => .leave).bind fun st' r hst => ?_
  subst hst
  cases r with
  | error e => exact rfl
  | ok _ =>
    have hwait : Follows (discipline ε i) (Work.within limit (Connection.stepOn i fun c =>
        c.delivered k)) (.posts k) fun st' r => (∃ r', r = .ok r' ∧ st' = .idle) ∨
          ∃ e, r = .error e ∧ st' = .posts k := by
      refine follows_within (fun w r w' hi hs => ?_) fun e _ => .inr ⟨e, rfl, rfl⟩
      obtain ⟨⟨r', c'⟩, hc', heq⟩ := Option.map_eq_some_iff.1 hs
      obtain ⟨⟨d, o⟩, ho, heq'⟩ := Option.map_eq_some_iff.1 hc'
      cases heq
      cases heq'
      exact ⟨.idle, .mail (.collect ho) (becomes_setConnection hi _), .inl ⟨_, rfl, rfl⟩⟩
    refine hwait.bind fun st' r hst => ?_
    cases r with
    | ok r =>
      rcases hst with ⟨r', -, rfl⟩ | ⟨e, heq, -⟩
      · exact rfl
      · cases heq
    | error e =>
      rcases hst with ⟨r', heq, -⟩ | ⟨e', -, rfl⟩
      · cases heq
      · have hleave : Follows (discipline ε i)
            (update (World.onConnection i (Connection.leave k))) (.posts k)
            fun st'' _ => st'' = .idle := by
          change Follows _ (Work.onConnection i fun c => ((), Connection.leave k c)) _ _
          exact follows_mail fun c => ⟨.idle, c.outbox.leave k, .forget, rfl, rfl⟩
        exact hleave.bind fun st'' _ hst => hst

/-- To post a note that comes next, and hear what became of it. -/
theorem follows_sendNote (hnext : note.Next v) (hframe : noteOf frame = some (uri, note)) :
    Follows (discipline ε i) (Connection.send i frame Limit.never) (.knows uri t v)
      fun st' r => st' = if r.isOk then heard uri t v note .written else .knows uri t v := by
  have hjoin : Follows (discipline ε i) (Work.onConnection i Connection.join) (.knows uri t v)
      fun st' k => st' = .inLine uri t v note k :=
    follows_mail fun c => ⟨_, _, .joinNote hnext, rfl, rfl⟩
  refine hjoin.bind fun st' k hst => ?_
  subst hst
  refine (follows_enqueue (fun o o' => .postNote hframe) fun o => .leaveNote).bind
    fun st' r hst => ?_
  subst hst
  cases r with
  | error e => exact rfl
  | ok _ =>
    have hwait : Follows (discipline ε i) (Work.within Limit.never (Connection.stepOn i fun c =>
        c.delivered k)) (.posted uri t v note k frame) fun st' r =>
          ∃ r', r = .ok r' ∧
            st' = if r'.isOk then heard uri t v note .written else .knows uri t v := by
      refine follows_within (fun w r w' hi hs => ?_) fun e hne => absurd rfl hne
      obtain ⟨⟨r', c'⟩, hc', heq⟩ := Option.map_eq_some_iff.1 hs
      obtain ⟨⟨d, o⟩, ho, heq'⟩ := Option.map_eq_some_iff.1 hc'
      cases heq
      cases heq'
      refine ⟨_, .mail (.hear ho) (becomes_setConnection hi _), _, rfl, ?_⟩
      cases d <;> rfl
    refine hwait.bind fun st' r hst => ?_
    obtain ⟨r', rfl, rfl⟩ := hst
    exact rfl

end Document

end LspClient
