import LspClient.Proofs.Document.Stages

/-!
# The discipline of documents is kept

The operations on documents go through the stages of their discipline, from asking for the lock to
giving it back. Everybody else has only frames written that are no notes (`parts_follow`).
-/

namespace LspClient.Document

open Program
open Connection (SameMail Aside)

variable {ε α β : Type} {i : Nat} {w w' : World ε} {uri : String} {t k : Nat}
  {v : Option Int} {note : Note} {frame : Json}

/-! ### Those who write no notes -/

/-- The programs of a connection write no notes, and have nothing to do with locks. -/
theorem parts_follow : Connection.Parts (ε := ε) i fun p =>
    Follows (discipline ε i) p .idle fun st _ => st = .idle where
  pure _ := rfl
  bind hp hk := hp.bind fun _ a hst => hst ▸ hk a
  fork hp := Follows.fork hp
  await h := Follows.await fun w a w' _ hs =>
    ⟨.idle, .aside ⟨(h w a w' hs).apart.mail, Nat.le_of_eq (h w a w' hs).length.symm⟩, rfl⟩
  enqueue hplain hk := by
    have hjoin : Follows (discipline ε i) (Work.onConnection i Connection.join) .idle
        fun st' k => st' = .line k :=
      follows_mail fun c => ⟨_, _, .join, rfl, rfl⟩
    refine hjoin.bind fun st' k hst => ?_
    subst hst
    refine (follows_enqueue (fun o o' => .queue hplain) fun o => .leave).bind fun st' r hst => ?_
    have hidle : st' = .idle := by
      rw [hst]
      exact ite_self _
    subst hidle
    exact hk r
  send hframe := follows_send hframe
  offer id := by
    change Follows _ (Work.onConnection i fun c => ((), Connection.offerCancel id c)) _ _
    refine follows_mail fun c => ⟨.idle, _, .offer ?_, rfl, rfl⟩
    exact noteOf_ofNotification_of_not_mem (by decide) _

theorem follows_reader : Follows (discipline ε i) (Connection.reader i) .idle
    fun st _ => st = .idle := by
  refine parts_follow.reader fun frame => Follows.act fun w hi => ⟨.idle, .aside ⟨?_, ?_⟩, rfl⟩
  · change SameMail _
      ((w.setConnection i (Connection.receive frame (w.connection i)).2).connection i)
    rcases Connection.connection_setConnection_cases w i _ with heq | heq
    · rw [heq]
      exact Connection.sameMail_receive frame _
    · rw [heq]
      exact .refl _
  · exact Nat.le_of_eq (List.length_set).symm

theorem becomes_onPipe (hi : i < w.connections.length) {j : Nat} {f : Pipe → Pipe}
    (c : Connection) : Becomes i w ((w.onPipe j f).setConnection i c) c :=
  ⟨(becomes_setConnection (w := w.onPipe j f) hi c).mail, Nat.le_of_eq (List.length_set).symm⟩

theorem next?_eq_some {o o' : Outbox} {command : Command} (h : o.next? = some (command, o')) :
    ∃ rest, o.queue = command :: rest ∧ o' = { o with queue := rest } := by
  unfold Outbox.next? at h
  split at h
  · cases h
  · next rest hqueue =>
    cases h
    exact ⟨rest, hqueue, rfl⟩

theorem follows_writer : Follows (discipline ε i) (Connection.writer i) .idle
    fun st _ => st = .idle := by
  have hstep : Follows (discipline ε i) (wait (Connection.writerStep i)) .idle
      fun st _ => st = .idle := by
    refine Follows.await fun w s w' hi hs => ⟨.idle, ?_, rfl⟩
    simp only [Connection.writerStep] at hs
    -- in the middle of a frame the writer goes on or finishes, else it takes the next command
    split at hs
    · next bytes ticket hwriting =>
      simp only [Connection.writeSome] at hs
      split at hs
      · next hclosed =>
        cases hs
        exact .write (.finish hwriting (by simp [hclosed])) (becomes_setConnection hi _)
      · next hopen =>
        split at hs
        · cases hs
        · cases hs
          refine .write ?_ (becomes_onPipe hi _)
          split
          · exact .finish hwriting (by simpa using hopen)
          · exact .goOn hwriting
    · next hwriting =>
      split at hs
      · cases hs
      · next frame ticket outbox hnext =>
        cases hs
        obtain ⟨rest, hqueue, rfl⟩ := next?_eq_some hnext
        exact .write (.begin hwriting hqueue) (becomes_setConnection hi _)
      · next outbox hnext =>
        cases hs
        obtain ⟨rest, hqueue, rfl⟩ := next?_eq_some hnext
        exact .write (.close (closes_shutdown hqueue)) (becomes_onPipe hi _)
  refine hstep.bind fun st s hst => ?_
  subst hst
  cases s with
  | goOn => exact rfl
  | finished => exact rfl
  | broken =>
    -- a broken pipe ends the calls first and the queue second
    refine parts_follow.sweep.bind fun st _ hst => ?_
    subst hst
    have hstop : Follows (discipline ε i) (Connection.stopWriting i) .idle
        fun st _ => st = .idle :=
      Follows.act fun w hi => ⟨.idle, .write (.close (closes_close _)) (becomes_onPipe hi _), rfl⟩
    exact hstop.bind fun st _ hst => hst

/-! ### Operations on documents -/

/-- One may give the lock back. -/
def MayRelease (uri : String) (t : Nat) (st : Stage) : Prop :=
  st = .holds uri t ∨ ∃ v, st = .knows uri t v

theorem follows_release {st : Stage} (h : MayRelease uri t st) : Follows (discipline ε i)
    (update (World.onConnection i (releaseLock t))) st fun st' _ => st' = .over uri := by
  change Follows _ (Work.onConnection i fun c => ((), releaseLock t c)) _ _
  refine follows_lock fun c => ⟨.over uri, c.locks.release t, ?_, rfl, rfl⟩
  rcases h with rfl | ⟨v, rfl⟩
  · exact .release
  · exact .releaseKnown

theorem follows_withLock {token : Token} {operation : Work ε (Except Failure α)}
    (hoperation : ∀ t, Follows (discipline ε i) operation (.holds uri t) fun st _ =>
      MayRelease uri t st) :
    Follows (discipline ε i) (withLock i uri token operation) (.asks uri)
      fun st _ => st = .over uri := by
  have hjoin : Follows (discipline ε i) (Work.onConnection i (joinLock uri)) (.asks uri)
      fun st t => st = .waits uri t :=
    follows_lock fun c => ⟨_, _, .join, rfl, rfl⟩
  refine hjoin.bind fun st t hst => ?_
  subst hst
  have hwait : Follows (discipline ε i) (Work.within (Limit.ofToken token)
      (Connection.stepOn i (acquireLock t))) (.waits uri t) fun st r =>
        st = settled (.holds uri t) (.waits uri t) r := by
    refine follows_within (fun w r w' hi hs => ?_) fun e _ => rfl
    obtain ⟨⟨r', c'⟩, hc', heq⟩ := Option.map_eq_some_iff.1 hs
    obtain ⟨l, hl, heq'⟩ := Option.map_eq_some_iff.1 hc'
    cases heq
    cases heq'
    exact ⟨.holds uri t, .lock (.acquire hl) (becomes_setConnection hi _), rfl⟩
  refine hwait.bind fun st r hst => ?_
  subst hst
  cases r with
  | error e =>
    have hleave : Follows (discipline ε i) (update (World.onConnection i (releaseLock t)))
        (.waits uri t) fun st _ => st = .over uri := by
      change Follows _ (Work.onConnection i fun c => ((), releaseLock t c)) _ _
      exact follows_lock fun c => ⟨.over uri, c.locks.release t, .leave, rfl, rfl⟩
    exact hleave.bind fun st _ hst => hst
  | ok _ =>
    refine (hoperation t).bind fun st r hst => ?_
    exact (follows_release hst).bind fun st _ hst => hst

theorem follows_version? : Follows (discipline ε i) (version? i uri) (.holds uri t)
    fun st v => st = .knows uri t v := by
  have hlook : Follows (discipline ε i) (Work.connection i) (.holds uri t) fun st c =>
      st = .knows uri t (c.documents.version? uri) :=
    Follows.act fun w hi => ⟨_, .read (becomes_self w), rfl⟩
  exact hlook.bind fun st c hst => hst

theorem keeps_look {view : World ε → α} : Keeps (Aside i) (look view) :=
  Keeps.look fun w => .refl w

theorem keeps_readIfExists (path : Path) : Keeps (Aside i)
    (readIfExists path : Work ε (Except Failure (Option String))) := by
  have hread : Keeps (Aside i) (Work.inBackground fun w : World ε =>
      (w.files.readText path, w)) := by
    refine Keeps.bind (Keeps.act fun w => .of_eq rfl rfl rfl rfl fun _ h => h) fun job => ?_
    refine Keeps.await fun w a w' hs => ?_
    obtain ⟨-, heq⟩ := Option.ite_none_right_eq_some.1 hs
    cases heq
    exact .refl w
  refine Keeps.bind hread fun r => ?_
  split <;> exact Keeps.pure _

/-- To notify the server of what comes next. -/
theorem follows_notify {method : String} {params : Option Json} (hnext : note.Next v)
    (hframe : noteOf (Message.ofNotification method params) = some (uri, note)) :
    Follows (discipline ε i) (Connection.notify i method params) (.knows uri t v)
      fun st r => st = if r.isOk then heard uri t v note .written else .knows uri t v := by
  refine (follows_aside keeps_look).bind fun st c hst => ?_
  subst hst
  cases husable : c.usable with
  | error e => exact rfl
  | ok _ =>
    have htouch : Keeps (Aside i) (update fun w : World ε =>
        w.onConnection i (Connection.touch w.uptime)) :=
      Keeps.update fun _ => .setConnection (.of_eq ⟨rfl, rfl, rfl, rfl, rfl⟩ rfl rfl rfl)
    refine (follows_aside htouch).bind fun st _ hst => ?_
    subst hst
    exact follows_sendNote hnext hframe

/-- The document is open where one knows its version. -/
def Pushed (uri : String) (t : Nat) (st : Stage) (r : Except Failure α) : Prop :=
  ∃ v, st = .knows uri t v ∧ (r.isOk = true → v ≠ none)

theorem Pushed.mayRelease {st : Stage} {r : Except Failure α} (h : Pushed uri t st r) :
    MayRelease uri t st :=
  let ⟨v, hv, _⟩ := h
  .inr ⟨v, hv⟩

theorem Pushed.map {st : Stage} {r : Except Failure α} (h : Pushed uri t st r) (f : α → β) :
    Pushed uri t st (r.map f) := by
  obtain ⟨v, hv, hok⟩ := h
  refine ⟨v, hv, fun h => hok ?_⟩
  cases r with
  | ok a => rfl
  | error e => cases h

theorem follows_record {n : Int} {f : Connection → Connection}
    (hf : ∀ c, ∃ languageId, f c = record uri ⟨n, languageId⟩ c) :
    Follows (discipline ε i) (update (World.onConnection i f)) (.told uri t n)
      fun st _ => st = .knows uri t (some n) := by
  refine Follows.act fun w hi => ⟨.knows uri t (some n), ?_, rfl⟩
  obtain ⟨languageId, heq⟩ := hf (w.connection i)
  have hbecomes := becomes_setConnection hi (f (w.connection i))
  rw [heq] at hbecomes
  change Acts i w (w.setConnection i (f (w.connection i))) _ _
  rw [heq]
  exact Acts.record (d := ⟨n, languageId⟩) hbecomes

theorem follows_sendOpen {path : Path} {content : String} :
    Follows (discipline ε i) (sendOpen i uri path content) (.knows uri t none)
      (Pushed uri t) := by
  refine (follows_aside keeps_look).bind fun st c hst => ?_
  subst hst
  have hnext : Note.Next none (.opened Documents.firstVersion) := ⟨rfl, rfl⟩
  refine (follows_notify hnext (noteOf_didOpen uri _ content _)).bind fun st r hst => ?_
  subst hst
  cases r with
  | error e => exact ⟨none, rfl, nofun⟩
  | ok _ =>
    exact (follows_record fun _ => ⟨_, rfl⟩).bind fun st _ hst => ⟨_, hst, fun _ => nofun⟩

theorem follows_sendChange {current : Int} {content : String} :
    Follows (discipline ε i) (sendChange i uri current content) (.knows uri t (some current))
      (Pushed uri t) := by
  have hnext : Note.Next (some current) (.changed (Documents.nextVersion current)) :=
    ⟨current, rfl, rfl⟩
  refine (follows_notify hnext (noteOf_didChange uri content _)).bind fun st r hst => ?_
  subst hst
  cases r with
  | error e => exact ⟨some current, rfl, nofun⟩
  | ok _ =>
    have hrecord : Follows (discipline ε i) (update (World.onConnection i
        (recordVersion uri (Documents.nextVersion current))))
        (.told uri t (Documents.nextVersion current))
        fun st _ => st = .knows uri t (some (Documents.nextVersion current)) :=
      follows_record fun _ => ⟨_, rfl⟩
    exact hrecord.bind fun st _ hst => ⟨_, hst, fun _ => nofun⟩

theorem follows_sendSave {content : Option String} (hv : v ≠ none) :
    Follows (discipline ε i) (sendSave i uri content) (.knows uri t v)
      fun st _ => st = .knows uri t v := by
  have hnext : Note.Next v .saved := hv
  refine (follows_notify hnext (noteOf_didSave uri content)).mono fun st r hst => ?_
  rw [hst]
  exact ite_self _

theorem follows_push {path : Path} {content : String} :
    Follows (discipline ε i) (push i uri path content) (.holds uri t) (Pushed uri t) := by
  refine follows_version?.bind fun st v hst => ?_
  subst hst
  cases v with
  | none => exact follows_sendOpen.bind fun st r h => h.map _
  | some current => exact follows_sendChange.bind fun st r h => h.map _

theorem follows_openLocked (path : Path) : Follows (discipline ε i) (openLocked i uri path)
    (.holds uri t) fun st _ => MayRelease uri t st := by
  refine follows_version?.bind fun st v hst => ?_
  subst hst
  cases v with
  | some _ => exact .inr ⟨_, rfl⟩
  | none =>
    refine (follows_aside (keeps_readIfExists path)).bind fun st r hst => ?_
    subst hst
    cases r with
    | error e => exact .inr ⟨_, rfl⟩
    | ok content =>
      cases content with
      | none => exact .inr ⟨_, rfl⟩
      | some content => exact follows_sendOpen.bind fun st r h => h.mayRelease

theorem follows_syncLocked (path : Path) (content : String) :
    Follows (discipline ε i) (syncLocked i uri path content) (.holds uri t)
      fun st _ => MayRelease uri t st := by
  have hinvalidate : Keeps (Aside i)
      (update (World.onConnection i (invalidate uri)) : Work ε Unit) :=
    Keeps.update fun w => .setConnection
      ⟨⟨rfl, rfl, rfl, rfl, rfl⟩, DiagnosticsCache.loses_invalidate _ uri, id, id⟩
  refine (follows_aside hinvalidate).bind fun st _ hst => ?_
  subst hst
  exact follows_push.mono fun st r h => h.mayRelease

theorem follows_saveLocked (path : Path) : Follows (discipline ε i) (saveLocked i uri path)
    (.holds uri t) fun st _ => MayRelease uri t st := by
  refine follows_version?.bind fun st v hst => ?_
  subst hst
  cases v with
  | none => exact .inr ⟨_, rfl⟩
  | some n =>
    refine (follows_aside keeps_look).bind fun st c hst => ?_
    subst hst
    have hsave {content : Option String} : Follows (discipline ε i) (do
        return (← sendSave i uri content).map fun () => SyncOutcome.saved)
        (.knows uri t (some n)) fun st _ => MayRelease uri t st := by
      have hopen : some n ≠ none := nofun
      exact (follows_sendSave hopen).bind fun st r hst => .inr ⟨_, hst⟩
    change Follows _ (if c.wantsTextOnSave = true then _ else _) _ _
    split
    · refine (follows_aside (keeps_readIfExists path)).bind fun st r hst => ?_
      subst hst
      cases r with
      | error e => exact .inr ⟨_, rfl⟩
      | ok content => exact hsave
    · exact hsave

theorem follows_refreshLocked (path : Path) :
    Follows (discipline ε i) (refreshLocked i uri path) (.holds uri t)
      fun st _ => MayRelease uri t st := by
  refine (follows_aside (keeps_readIfExists path)).bind fun st r hst => ?_
  subst hst
  cases r with
  | error e => exact .inl rfl
  | ok content =>
    cases content with
    | none => exact .inl rfl
    | some content =>
      refine follows_push.bind fun st r hst => ?_
      cases r with
      | error e => exact hst.mayRelease
      | ok outcome =>
        obtain ⟨v, rfl, hv⟩ := hst
        refine (follows_aside keeps_look).bind fun st c hst => ?_
        subst hst
        exact (follows_sendSave (hv rfl)).bind fun st r hst => .inr ⟨_, hst⟩

end LspClient.Document
