import LspClient.Proofs.Document.Versions

/-!
# Keeping to the order

What is true of a connection, of all who work on its documents, and of what it has written, after
each action (`Kept.acts`).
-/

namespace LspClient.Document

open Program

variable {P : Actor → Stage} {a : Actor} {st' : Stage} {deliveries deliveries' : Table Nat Delivery}
  {documents : Documents} {log : String → List Note} {sent : List (Json × Option Nat)}
  {k : Nat} {ticket : Option Nat} {note : Note} {uri : String}

/-! ### The state of a connection -/

structure Kept (P : Actor → Stage) (wire : Wire) (c : Connection) : Prop where
  queued : Queued (Stage.turn? ∘ P) c.locks
  underWay : wire.underWay.map (·.2) = c.writing.map (·.2)
  mailed : Mailed (Stage.post? ∘ P) (transit wire c.outbox) c.outbox.deliveries
    c.outbox.nextTicket
  versioned : Versioned P c.outbox.deliveries c.documents fun uri => logOf uri wire.written

theorem comp_update_of_eq {β : Type} {f : Stage → β} (h : f st' = f (P a)) :
    f ∘ Function.update P a st' = f ∘ P := by
  rw [Function.comp_update, h]
  exact Function.update_eq_self a (f ∘ P)

/-! #### Mail -/

section Mails

variable {st : Stage} {o o' : Outbox} {wire : Wire}

@[simp] theorem turn?_heard {t : Nat} {v : Option Int} {d : Delivery} :
    (heard uri t v note d).turn? = some ⟨uri, t, true⟩ := by
  unfold heard
  split
  · cases note <;> rfl
  · rfl

@[simp] theorem post?_heard {t : Nat} {v : Option Int} {d : Delivery} :
    (heard uri t v note d).post? = none := by
  unfold heard
  split
  · cases note <;> rfl
  · rfl

/-- One who has heard that a note was written is ahead by its version. -/
theorem ahead?_heard {t : Nat} {v : Option Int} {d : Delivery} :
    (heard uri t v note d).ahead? deliveries' =
      if some d = some Delivery.written then note.version?.map fun n => (uri, n) else none := by
  by_cases hd : d = .written
  · subst hd
    rw [if_pos rfl]
    cases note <;> rfl
  · rw [heard, if_neg hd, if_neg fun h => hd (Option.some.inj h)]
    rfl

theorem takeIn_eq_some {command : Command} (h : o.takeIn k command = some o') :
    o'.queue = o.queue ++ [command] ∧ o'.deliveries = o.deliveries ∧
      o'.nextTicket = o.nextTicket := by
  obtain ⟨-, heq⟩ := Option.ite_none_left_eq_some.1 h
  cases heq
  exact ⟨rfl, rfl, rfl⟩

theorem collect_eq_some {d : Delivery} (h : o.collect k = some (d, o')) :
    o.deliveries.get? k = some d ∧ o'.queue = o.queue ∧
      o'.deliveries = o.deliveries.erase k ∧ o'.nextTicket = o.nextTicket := by
  obtain ⟨d', hd', heq⟩ := Option.map_eq_some_iff.1 h
  cases heq
  exact ⟨hd', rfl, rfl, rfl⟩

theorem transit_of_queue {command : Command} (h : o'.queue = o.queue ++ [command]) :
    transit wire o' = transit wire o ++ (Command.sent? command).toList := by
  unfold transit
  rw [h, List.filterMap_append, List.append_assoc]
  cases command <;> rfl

theorem Mails.turn?_eq (hm : Mails st o st' o') : st'.turn? = st.turn? := by
  cases hm with
  | hear => exact turn?_heard
  | _ => rfl

theorem Mails.known?_of (hm : Mails st o st' o') {v : Option Int}
    (h : st'.known? = some (uri, v)) : st.known? = some (uri, v) := by
  cases hm with
  | hear =>
    unfold heard at h
    split at h
    · next note _ _ _ _ =>
      cases hn : note.version? with
      | none => rw [hn] at h; exact h
      | some n => rw [hn] at h; cases h
    · exact h
  | leave => cases h
  | queue => cases h
  | collect => cases h
  | forget => cases h
  | _ => exact h

theorem Mails.proper (hm : Mails st o st' o') (h : st.Proper) : st'.Proper := by
  cases hm with
  | joinNote hnext => exact hnext
  | postNote hframe => exact ⟨h, hframe⟩
  | hear =>
    unfold heard
    split
    · next note _ _ _ _ => cases note <;> trivial
    · trivial
  | offer => exact h
  | _ => trivial

/-- Only one's own report is taken away. -/
theorem Mails.deliveries_cases (hm : Mails st o st' o') : o'.deliveries = o.deliveries ∨
    ∃ n, st.post? = some n ∧ o'.deliveries = o.deliveries.erase n.ticket := by
  cases hm with
  | join => exact .inl rfl
  | joinNote => exact .inl rfl
  | leave => exact .inr ⟨_, rfl, rfl⟩
  | leaveNote => exact .inr ⟨_, rfl, rfl⟩
  | queue _ ho => exact .inl (takeIn_eq_some ho).2.1
  | post _ ho => exact .inl (takeIn_eq_some ho).2.1
  | postNote _ ho => exact .inl (takeIn_eq_some ho).2.1
  | collect ho => exact .inr ⟨_, rfl, (collect_eq_some ho).2.2.1⟩
  | forget => exact .inr ⟨_, rfl, rfl⟩
  | hear ho => exact .inr ⟨_, rfl, (collect_eq_some ho).2.2.1⟩
  | offer =>
    unfold Outbox.offer
    split <;> exact .inl rfl

theorem Mails.mailed (hm : Mails st o st' o') (hst : P a = st)
    (h : Mailed (Stage.post? ∘ P) (transit wire o) o.deliveries o.nextTicket) :
    Mailed (Stage.post? ∘ Function.update P a st') (transit wire o') o'.deliveries
      o'.nextTicket := by
  have hpost : (Stage.post? ∘ P) a = st.post? := by rw [Function.comp_apply, hst]
  rw [Function.comp_update]
  cases hm with
  | join => exact h.join hpost
  | joinNote => exact h.join hpost
  | leave => exact h.withdraw hpost nofun
  | leaveNote => exact h.withdraw hpost nofun
  | @queue o o' k command hplain ho =>
    obtain ⟨hqueue, hdeliveries, hnext⟩ := takeIn_eq_some ho
    rw [transit_of_queue hqueue, hdeliveries, hnext]
    have hdrop := h.drop (a := a) fun k frame hk => by cases hpost.symm.trans hk
    cases hplain with
    | send hframe => exact hdrop.offer hframe
    | shutdown => rwa [Command.sent?, Option.toList_none, List.append_nil]
  | post hframe ho =>
    obtain ⟨hqueue, hdeliveries, hnext⟩ := takeIn_eq_some ho
    rw [transit_of_queue hqueue, hdeliveries, hnext]
    exact h.post hpost (.inr ⟨rfl, hframe⟩)
  | postNote hframe ho =>
    obtain ⟨hqueue, hdeliveries, hnext⟩ := takeIn_eq_some ho
    rw [transit_of_queue hqueue, hdeliveries, hnext]
    exact h.post hpost (.inl rfl)
  | collect ho =>
    obtain ⟨-, hqueue, hdeliveries, hnext⟩ := collect_eq_some ho
    rw [transit, hqueue, hdeliveries, hnext]
    exact h.withdraw hpost nofun
  | forget => exact h.withdraw hpost nofun
  | hear ho =>
    obtain ⟨hget, hqueue, hdeliveries, hnext⟩ := collect_eq_some ho
    rw [transit, hqueue, hdeliveries, hnext, post?_heard]
    refine h.withdraw hpost fun _ _ hnone => ?_
    cases hget.symm.trans hnone
  | offer hframe =>
    rw [← hpost, Function.update_eq_self]
    unfold Outbox.offer
    split
    · exact h
    · rw [transit_of_queue rfl]
      exact h.offer hframe

theorem Mails.versioned (hm : Mails st o st' o') (hst : P a = st)
    (hmail : Mailed (Stage.post? ∘ P) sent o.deliveries o.nextTicket)
    (h : Versioned P o.deliveries documents log) :
    Versioned (Function.update P a st') o'.deliveries documents log := by
  have hpost : (Stage.post? ∘ P) a = st.post? := by rw [Function.comp_apply, hst]
  refine h.update (hm.proper (hst ▸ h.proper a)) (fun uri v hv => h.known a uri v ?_) ?_
    fun b hb => ?_
  · rw [hst]
    exact hm.known?_of hv
  · rw [hst]
    -- of the mail only posting and hearing change what an actor may be ahead with
    cases hm with
    | postNote _ ho =>
      obtain ⟨-, hnone⟩ := hmail.inLine a _ hpost
      refine if_neg ?_
      rw [(takeIn_eq_some ho).2.1, hnone]
      exact nofun
    | hear ho =>
      rw [ahead?_heard, ← (collect_eq_some ho).1]
      rfl
    | @offer o st frame =>
      have hsame : (o.offer (.send frame none)).deliveries = o.deliveries := by
        unfold Outbox.offer
        split <;> rfl
      rw [hsame]
    | _ => rfl
  · rcases hm.deliveries_cases with heq | ⟨n, hn, heq⟩
    · rw [heq]
    · refine Stage.ahead?_congr fun k frame hk => ?_
      rw [heq, Table.get?_erase_ne]
      rintro rfl
      exact hb (hmail.unique b a _ n hk (hpost.trans hn) rfl)

end Mails

/-! #### Locks -/

section Locking

variable {st : Stage} {l l' : Locks}

theorem Locking.queued (hl : Locking st l st' l') (hst : P a = st)
    (h : Queued (Stage.turn? ∘ P) l) : Queued (Stage.turn? ∘ Function.update P a st') l' := by
  have hturn : (Stage.turn? ∘ P) a = st.turn? := by rw [Function.comp_apply, hst]
  rw [Function.comp_update]
  cases hl with
  | @join l uri =>
    have hticket : (l.join uri).1 = l.nextTicket := (Locks.lockOf_spec l uri).2.1
    rw [hticket]
    exact h.join uri a
  | acquire hacquire => exact h.acquire hturn hacquire
  | leave => exact h.release hturn
  | release => exact h.release hturn
  | releaseKnown => exact h.release hturn

theorem Locking.post?_eq (hl : Locking st l st' l') : st'.post? = st.post? := by
  cases hl <;> rfl

theorem Locking.versioned (hl : Locking st l st' l') (hst : P a = st)
    (h : Versioned P deliveries documents log) :
    Versioned (Function.update P a st') deliveries documents log := by
  refine h.update ?_ (fun uri v hv => ?_) ?_ fun _ _ => rfl
  · cases hl <;> trivial
  · cases hl <;> cases hv
  · rw [hst]
    cases hl <;> rfl

end Locking

/-! #### All actions -/

namespace Kept

variable {wire : Wire} {c c' : Connection} {st : Stage}

theorem oneHolds (h : Kept P wire c) : OneHolds P :=
  fun _ _ _ _ _ hn hn' => h.queued.holder_unique hn hn' rfl rfl rfl

theorem congr (h : Kept P wire c) (hc : Connection.SameMail c c') : Kept P wire c' := by
  obtain ⟨hdocuments, hlocks, houtbox, hwriting, -⟩ := hc
  refine ⟨?_, ?_, ?_, ?_⟩
  · rw [hlocks]
    exact h.queued
  · rw [hwriting]
    exact h.underWay
  · rw [houtbox]
    exact h.mailed
  · rw [houtbox, hdocuments]
    exact h.versioned

theorem mail {o : Outbox} (h : Kept P wire c) (hst : P a = st) (hm : Mails st c.outbox st' o) :
    Kept (Function.update P a st') wire { c with outbox := o } where
  queued := by
    rw [comp_update_of_eq (hm.turn?_eq.trans (by rw [hst]))]
    exact h.queued
  underWay := h.underWay
  mailed := hm.mailed hst h.mailed
  versioned := hm.versioned hst h.mailed h.versioned

theorem lock {l : Locks} (h : Kept P wire c) (hst : P a = st) (hl : Locking st c.locks st' l) :
    Kept (Function.update P a st') wire { c with locks := l } where
  queued := hl.queued hst h.queued
  underWay := h.underWay
  mailed := by
    rw [comp_update_of_eq (hl.post?_eq.trans (by rw [hst]))]
    exact h.mailed
  versioned := hl.versioned hst h.versioned

theorem read {t : Nat} (h : Kept P wire c) (hst : P a = .holds uri t) :
    Kept (Function.update P a (.knows uri t (c.documents.version? uri))) wire c where
  queued := by
    rw [comp_update_of_eq (by rw [hst]; rfl)]
    exact h.queued
  underWay := h.underWay
  mailed := by
    rw [comp_update_of_eq (by rw [hst]; rfl)]
    exact h.mailed
  versioned := by
    refine h.versioned.update trivial (fun uri v hv => ?_) (by rw [hst]; rfl) fun _ _ => rfl
    cases hv
    rfl

theorem record {t : Nat} {d : OpenDocument} (h : Kept P wire c)
    (hst : P a = .told uri t d.version) :
    Kept (Function.update P a (.knows uri t (some d.version))) wire
      { c with documents := c.documents.put uri d } where
  queued := by
    rw [comp_update_of_eq (by rw [hst]; rfl)]
    exact h.queued
  underWay := h.underWay
  mailed := by
    rw [comp_update_of_eq (by rw [hst]; rfl)]
    exact h.mailed
  versioned := h.versioned.record h.oneHolds hst

/-- The frame that is being written is written, or not. -/
theorem finish {bytes : List UInt8} {d : Delivery} {closed : Bool} (h : Kept P wire c)
    (hw : c.writing = some (bytes, ticket)) (hd : d = .written ↔ closed = false) :
    Kept P (wire.next closed c { c with writing := none, outbox := c.outbox.report ticket d })
      { c with writing := none, outbox := c.outbox.report ticket d } := by
  have hunderWay := h.underWay
  rw [hw] at hunderWay
  obtain ⟨⟨frame, ticket'⟩, hframe, heq⟩ := Option.map_eq_some_iff.1 hunderWay
  obtain rfl : ticket' = ticket := heq
  have hmail := h.mailed
  rw [transit, hframe] at hmail
  have hqueue : (c.outbox.report ticket' d).queue = c.outbox.queue := by
    cases ticket' <;> rfl
  have hdeliveries : (c.outbox.report ticket' d).deliveries =
      reported c.outbox.deliveries ticket' d := by
    cases ticket' <;> rfl
  have hnext : (c.outbox.report ticket' d).nextTicket = c.outbox.nextTicket := by
    cases ticket' <;> rfl
  rw [Wire.next_of_finish (by rw [hw]; rfl) rfl, hframe]
  refine ⟨h.queued, rfl, ?_, ?_⟩
  · dsimp only
    rw [transit, hqueue, hdeliveries, hnext]
    change Mailed _ ([] ++ c.outbox.queue.filterMap Command.sent?) _ _
    exact Mailed.report hmail
  · dsimp only
    rw [hdeliveries]
    -- on a closed pipe nothing is written, so no one gets ahead
    cases closed with
    | true =>
      refine h.versioned.congr (ahead?_of_not_written hmail (fun heq => ?_)
        (List.mem_cons_self ..))
      cases hd.1 heq
    | false =>
      rw [hd.2 rfl]
      simp only [Bool.false_eq_true, if_false, Option.map_some, Option.toList_some, logOf_append]
      exact h.versioned.write h.oneHolds hmail

theorem write {closed : Bool} (h : Kept P wire c) (hw : Writes c closed c') :
    Kept P (wire.next closed c c') c' := by
  cases hw with
  | @begin frame ticket rest bytes hwriting hqueue =>
    have hidle : wire.underWay = none := by
      have hunderWay := h.underWay
      rw [hwriting] at hunderWay
      exact Option.map_eq_none_iff.1 hunderWay
    have hmail := h.mailed
    rw [transit, hidle, hqueue] at hmail
    rw [Wire.next_of_begin hwriting rfl, hqueue]
    exact ⟨h.queued, rfl, hmail, h.versioned⟩
  | goOn hwriting =>
    rw [Wire.next_of_same (by rw [hwriting]; rfl)]
    refine ⟨h.queued, ?_, h.mailed, h.versioned⟩
    rw [h.underWay, hwriting]
    rfl
  | finish hwriting hd => exact h.finish hwriting hd
  | @close o ho =>
    have hsame : wire.next closed c { c with outbox := o } = wire := Wire.next_of_same rfl
    rw [hsame]
    obtain ⟨hmail, hversioned⟩ := h.versioned.drop h.mailed
    refine ⟨h.queued, h.underWay, ?_, ?_⟩
    · dsimp only
      rw [transit, ho.queue, ho.deliveries, ho.nextTicket, List.filterMap_nil, List.append_nil]
      exact hmail
    · dsimp only
      rw [ho.deliveries]
      exact hversioned

/-- Whatever is done to a connection, it stays in order. -/
theorem acts {ε : Type} {i : Nat} {w w' : World ε} (h : Kept P wire (w.connection i))
    (ha : Acts i w w' (P a) st') :
    Kept (Function.update P a st')
      (wire.next (w.pipe (w.connection i).output).sinkClosed (w.connection i) (w'.connection i))
      (w'.connection i) := by
  have hsame {closed : Bool} {c : Connection} (hb : Becomes i w w' c)
      (hw : c.writing = (w.connection i).writing) :
      wire.next closed (w.connection i) (w'.connection i) = wire :=
    Wire.next_of_same (by rw [hb.mail.writing, hw])
  generalize hst : P a = st at ha
  cases ha with
  | aside hb =>
    rw [hsame hb rfl, ← hst, Function.update_eq_self]
    exact h.congr hb.mail
  | mail hm hb =>
    rw [hsame hb rfl]
    exact (h.mail hst hm).congr hb.mail
  | lock hl hb =>
    rw [hsame hb rfl]
    exact (h.lock hst hl).congr hb.mail
  | read hb =>
    rw [hsame hb rfl]
    exact (h.read hst).congr hb.mail
  | record hb =>
    rw [hsame hb rfl]
    exact (h.record hst).congr hb.mail
  | write hw hb =>
    have hnext {closed : Bool} {c : Connection} (hc : Connection.SameMail c (w'.connection i)) :
        wire.next closed (w.connection i) (w'.connection i) =
          wire.next closed (w.connection i) c := by
      rw [Wire.next, Wire.next, hc.writing]
    rw [hnext hb.mail, ← hst, Function.update_eq_self]
    exact (h.write hw).congr hb.mail

end Kept

end LspClient.Document
