import LspClient.Proofs.Document.Errands
import LspClient.Proofs.Document.Exclusive

/-!
# In line for nothing

One who asks for the lock of a document and gives up has touched nothing but the locks, and leaves
them to everybody else as they were (`Withdrawn`): the handle goes, and so does the entry of the
table if it was made for it. As no ticket is given twice, the ticket of one who has left is nobody's
from then on (`Later`).
-/

namespace LspClient

namespace Locks

variable {l l' l'' : Locks} {ticket : Nat} {uri : String}

/-! ### The locks without one of those in line -/

def Absent (ticket : Nat) (l : Locks) : Prop := ∀ h ∈ l.handles, h.ticket ≠ ticket

/-- The table and the handles as they are for everybody but one. -/
def others (ticket : Nat) (l : Locks) : Table String Nat × List LockHandle :=
  ((l.release ticket).table, (l.release ticket).handles)

theorem release_of_absent (h : l.Absent ticket) : l.release ticket = l := by
  have hnone : l.handle? ticket = none :=
    List.find?_eq_none.2 fun o ho => by simpa using h o ho
  rw [release, hnone]

theorem absent_release (l : Locks) (ticket : Nat) : (l.release ticket).Absent ticket := by
  intro h hh
  rw [handles_release] at hh
  simpa using (List.mem_filter.1 hh).2

theorem others_of_absent (h : l.Absent ticket) : l.others ticket = (l.table, l.handles) := by
  rw [others, release_of_absent h]

theorem others_release (l : Locks) (ticket : Nat) :
    (l.release ticket).others ticket = l.others ticket := by
  rw [others, release_of_absent (absent_release l ticket)]
  rfl

theorem Sound.absent_of_le (hl : l.Sound) (h : l.nextTicket ≤ ticket) : l.Absent ticket :=
  fun o ho => Nat.ne_of_lt (Nat.lt_of_lt_of_le (hl.ticket_lt o ho) h)

theorem fst_join (l : Locks) (uri : String) : (l.join uri).1 = l.nextTicket :=
  (lockOf_spec l uri).2.1

theorem nextTicket_join (l : Locks) (uri : String) :
    (l.join uri).2.nextTicket = l.nextTicket + 1 :=
  congrArg (· + 1) (lockOf_spec l uri).2.1

/-- The last in line is the handle that has just been made. -/
theorem Tidy.handle?_join (hl : l.Tidy) (uri : String) : (l.join uri).2.handle? l.nextTicket =
    some ⟨l.nextTicket, uri, (l.lockOf uri).1, false⟩ := by
  have hnone : l.handles.find? (fun h => h.ticket == l.nextTicket) = none :=
    List.find?_eq_none.2 fun o ho => by
      simpa using hl.absent_of_le (Nat.le_refl _) o ho
  rw [handle?, handles_join, List.find?_append, hnone]
  simp

/-- To join and to leave again takes an entry out of the table only if it was new. -/
theorem Tidy.table_release_join (hl : l.Tidy) (uri : String) :
    ((l.join uri).2.release l.nextTicket).table = l.table := by
  have hjoin := hl.join uri
  have hhandles := handles_join l uri
  rw [hjoin.table_release (hl.handle?_join uri), (table_join l uri).1]
  -- an entry has a handle that keeps it; without one the new handle is the last on its lock
  cases hentry : l.table.get? uri with
  | some lock =>
    have hfound : l.lockOf uri = (lock, l) := by rw [lockOf, hentry]
    obtain ⟨h, hh, huri⟩ := hl.used _ (Table.mem_of_get? hentry)
    have hlock : h.lock = lock := by
      have hsame := hl.entry h hh
      rw [huri, hentry] at hsame
      exact (Option.some.inj hsame).symm
    rw [hfound, if_neg]
    intro hlast
    have heq := hlast h (hhandles ▸ List.mem_append_left _ hh) hlock
    exact hl.absent_of_le (Nat.le_refl _) h hh (by rw [heq])
  | none =>
    have hnew : l.lockOf uri = (l.nextLock,
        { l with table := l.table.put uri l.nextLock, nextLock := l.nextLock + 1 }) := by
      rw [lockOf, hentry]
    have hlast : (l.join uri).2.Last ⟨l.nextTicket, uri, l.nextLock, false⟩ := by
      intro h hh hlock
      rw [hhandles, hnew] at hh
      rcases List.mem_append.1 hh with hh | hh
      · have hlt := hl.lock_lt _ (Table.mem_of_get? (hl.entry h hh))
        exact absurd hlock (Nat.ne_of_lt hlt)
      · exact List.mem_singleton.1 hh
    have hkeys : l.table.filter (fun e => e.1 ≠ uri) = l.table :=
      List.filter_eq_self.2 fun e he => decide_eq_true fun heq =>
        Table.get?_ne_none_of_mem he (heq ▸ hentry)
    rw [hnew, if_pos hlast]
    dsimp only
    rw [Table.put_of_get?_none hentry, Table.erase, List.filter_append, hkeys]
    simp

theorem Tidy.others_join (hl : l.Tidy) (uri : String) :
    (l.join uri).2.others l.nextTicket = l.others l.nextTicket := by
  have habsent : l.Absent l.nextTicket := hl.absent_of_le (Nat.le_refl _)
  have hhandles : ((l.join uri).2.release l.nextTicket).handles = l.handles := by
    rw [handles_release, handles_join, List.filter_append,
      List.filter_eq_self.2 fun o ho => by simpa using habsent o ho]
    simp
  rw [others_of_absent habsent, others, hl.table_release_join uri, hhandles]

/-! ### Later locks -/

/-- What the locks come to be by what is done to them. -/
structure Later (l l' : Locks) : Prop where
  nextTicket : l.nextTicket ≤ l'.nextTicket
  absent : ∀ ticket < l.nextTicket, l.Absent ticket → l'.Absent ticket
  tidy : l.Tidy → l'.Tidy

namespace Later

theorem refl (l : Locks) : l.Later l := ⟨Nat.le_refl _, fun _ _ h => h, id⟩

theorem trans (h : l.Later l') (h' : l'.Later l'') : l.Later l'' where
  nextTicket := Nat.le_trans h.nextTicket h'.nextTicket
  absent ticket hlt habsent :=
    h'.absent ticket (Nat.lt_of_lt_of_le hlt h.nextTicket) (h.absent ticket hlt habsent)
  tidy hl := h'.tidy (h.tidy hl)

theorem join (l : Locks) (uri : String) : l.Later (l.join uri).2 where
  nextTicket := by
    rw [nextTicket_join]
    exact Nat.le_succ _
  absent ticket hlt habsent h hh := by
    rw [handles_join] at hh
    rcases List.mem_append.1 hh with hh | hh
    · exact habsent h hh
    · rw [List.mem_singleton.1 hh]
      exact (Nat.ne_of_lt hlt).symm
  tidy hl := hl.join uri

theorem acquire (h : l.acquire ticket = some l') : l.Later l' where
  nextTicket := by
    obtain ⟨-, -, -, -, rfl⟩ := acquire_eq_some h
    exact Nat.le_refl _
  absent ticket' _ habsent o ho := by
    obtain ⟨-, -, -, -, rfl⟩ := acquire_eq_some h
    obtain ⟨o', ho', heq, -⟩ := mem_give ho
    rw [heq]
    exact habsent o' ho'
  tidy hl := hl.acquire h

theorem release (l : Locks) (ticket : Nat) : l.Later (l.release ticket) where
  nextTicket := by
    unfold Locks.release
    split <;> exact Nat.le_refl _
  absent ticket' _ habsent o ho := by
    rw [handles_release] at ho
    exact habsent o (List.mem_of_mem_filter ho)
  tidy hl := hl.release ticket

end Later

end Locks

namespace Document

open Program Crew

variable {ε κ ρ α : Type} {i : Nat} {w w' : World ε} {st st' : Stage} {uri : String}
  {token : Token} {a : Actor} {moments : List (Moment (World ε))}

theorem Locking.later {l l' : Locks} (h : Locking st l st' l') : l.Later l' := by
  cases h with
  | join => exact .join ..
  | acquire h => exact .acquire h
  | leave => exact .release ..
  | release => exact .release ..
  | releaseKnown => exact .release ..

theorem Acts.later (h : Acts i w w' st st') :
    (w.connection i).locks.Later (w'.connection i).locks := by
  have hsame {c : Connection} (hb : Becomes i w w' c) (hc : c.locks = (w.connection i).locks) :
      (w.connection i).locks.Later (w'.connection i).locks := by
    rw [hb.mail.locks, hc]
    exact .refl _
  cases h with
  | aside hb => exact hsame hb rfl
  | mail _ hb => exact hsame hb rfl
  | lock hl hb =>
    rw [hb.mail.locks]
    exact hl.later
  | read hb => exact hsame hb rfl
  | record hb => exact hsame hb rfl
  | write hw hb => cases hw <;> exact hsame hb rfl

section Run

variable {doc : κ → Option String} {Q : κ → Stage → ρ → Prop} {R : Rules (World ε) κ ρ}
  {start c : Crew (World ε) κ ρ} {P : Actor → Stage} {wire : Wire}

theorem Attended.later (hR : R.Obeys (discipline ε i) (fun x => Stage.first (doc x)) Q)
    (h : Attended i doc Q wire P start) (run : Run R start moments c) :
    (start.state.connection i).locks.Later (c.state.connection i).locks ∧
      ∀ m ∈ moments, (start.state.connection i).locks.Later (m.before.connection i).locks ∧
        (start.state.connection i).locks.Later (m.after.connection i).locks :=
  run.chain (G := fun w w' => (w.connection i).locks.Later (w'.connection i).locks)
    (fun _ => .refl _) (fun _ _ _ => .trans) fun m hm => by
      obtain ⟨st, st', hacts⟩ := h.acts_of_mem hR run hm
      exact hacts.later

end Run

/-! ### The rest of the world -/

/-- The world without the locks of a connection. -/
def unlocked (i : Nat) (w : World ε) : World ε :=
  w.setConnection i { w.connection i with locks := .empty }

theorem unlocked_setConnection (w : World ε) (i : Nat) (l : Locks) :
    unlocked i (w.setConnection i { w.connection i with locks := l }) = unlocked i w := by
  unfold unlocked
  rcases Nat.lt_or_ge i w.connections.length with hi | hi
  · rw [World.connection_setConnection hi]
    simp [World.setConnection]
  · simp [World.setConnection, List.set_eq_of_length_le hi]

/-- One has got in line, and left it again. -/
structure Withdraws (a : Actor) (i : Nat) (uri : String) (ticket : Nat)
    (moments : List (Moment (World ε))) : Prop where
  spared : Leaves a (unlocked i) moments
  stood : ∃ early joins waiting leaves late,
    moments = early ++ joins :: (waiting ++ leaves :: late) ∧
    ticket = (joins.before.connection i).locks.nextTicket ∧
    (joins.after.connection i).locks = ((joins.before.connection i).locks.join uri).2 ∧
    (leaves.after.connection i).locks.Absent ticket
  others : (∀ m ∈ moments, (m.before.connection i).locks.Tidy) →
    Leaves a (fun w => (w.connection i).locks.others ticket) moments

section Lock

variable (hi : ∀ m ∈ moments, i < m.before.connections.length)

include hi

theorem does_joinLock {ticket : Nat}
    (h : Does a (Work.onConnection i (joinLock uri) : Work ε Nat) moments (.done ticket)) :
    ∃ early m late, moments = early ++ m :: late ∧ Silent a early ∧ Silent a late ∧
      ticket = (m.before.connection i).locks.nextTicket ∧
      (m.after.connection i).locks = ((m.before.connection i).locks.join uri).2 := by
  obtain ⟨early, m, late, rfl, hearly, hlate, -, hs⟩ := h.act_inv
  obtain ⟨hticket, hjoined⟩ := Prod.mk.inj hs
  refine ⟨early, m, late, rfl, hearly, hlate, ?_, ?_⟩
  · rw [← hticket]
    exact Locks.fst_join ..
  · rw [← hjoined, World.connection_setConnection (hi m (by simp))]
    rfl

theorem does_releaseLock {ticket : Nat} {u : Unit}
    (h : Does a (update (World.onConnection i (releaseLock ticket)) : Work ε Unit) moments
      (.done u)) :
    ∃ early m late, moments = early ++ m :: late ∧ Silent a early ∧ Silent a late ∧
      (m.after.connection i).locks = (m.before.connection i).locks.release ticket := by
  obtain ⟨early, m, late, rfl, hearly, hlate, -, hs⟩ := h.act_inv
  obtain ⟨-, hleft⟩ := Prod.mk.inj hs
  refine ⟨early, m, late, rfl, hearly, hlate, ?_⟩
  rw [← hleft, World.onConnection, World.connection_setConnection (hi m (by simp))]
  rfl

omit hi in
/-- To wait in vain changes nothing. -/
theorem does_not_acquire {ticket : Nat} {e : Failure} {β : Type} {f : World ε → β}
    (h : Does a (Work.within (Limit.ofToken token) (Connection.stepOn i (acquireLock ticket)))
      moments (.done (.error e))) : e = .cancelled ∧ Leaves a f moments := by
  obtain ⟨before, m, after, rfl, hbefore, hafter, -, hs⟩ := h.await_inv
  split at hs
  · obtain ⟨heq, hsame⟩ := Prod.mk.inj (Option.some.inj hs)
    cases heq
    exact ⟨rfl, hbefore.leaves.append (.cons (fun _ => by rw [hsame]) hafter.leaves)⟩
  · split at hs <;> cases hs

/-- A call holds the lock while it works, or is cancelled in line. -/
theorem does_withLock_cases {operation : Work ε (Except Failure α)} {r : Except Failure α}
    (h : Does a (withLock i uri token operation) moments (.done r)) :
    (∃ before part after, moments = before ++ (part ++ after) ∧ Does a operation part (.done r) ∧
      Leaves a (unlocked i) before ∧ Leaves a (unlocked i) after) ∨
    (r = .error .cancelled ∧ ∃ ticket, Withdraws a i uri ticket moments) := by
  obtain ⟨joining, ticket, rest, rfl, hjoin, h⟩ := h.bind_inv
  obtain ⟨waiting, got, rest, rfl, hwait, h⟩ := h.bind_inv
  have hjoins : Leaves a (unlocked i) joining :=
    hjoin.leaves (Keeps.act fun w => unlocked_setConnection w i _)
  have hreleases {releasing : List (Moment (World ε))} {u : Unit}
      (h : Does a (update (World.onConnection i (releaseLock ticket))) releasing (.done u)) :
      Leaves a (unlocked i) releasing :=
    h.leaves (Keeps.update fun w => unlocked_setConnection w i _)
  -- with the lock the operation is carried out; without it joining and leaving cancel out
  cases got with
  | ok _ =>
    obtain ⟨part, outcome, rest, rfl, hpart, h⟩ := h.bind_inv
    obtain ⟨releasing, _, last, rfl, hrelease, h⟩ := h.bind_inv
    obtain ⟨rfl, hlast⟩ := h.pure_inv
    have hwaits : Leaves a (unlocked i) waiting := by
      refine hwait.leaves (Connection.keeps_within (fun _ => rfl) fun w r w' hs => ?_)
      obtain ⟨⟨r', c⟩, hc, heq⟩ := Option.map_eq_some_iff.1 hs
      obtain ⟨locks, -, heq'⟩ := Option.map_eq_some_iff.1 hc
      cases heq
      cases heq'
      exact unlocked_setConnection w i locks
    exact .inl ⟨joining ++ waiting, part, releasing ++ last, by simp, hpart,
      hjoins.append hwaits, (hreleases hrelease).append hlast.leaves⟩
  | error e =>
    obtain ⟨releasing, _, last, rfl, hrelease, h⟩ := h.bind_inv
    obtain ⟨rfl, hlast⟩ := h.pure_inv
    obtain ⟨rfl, hwaits⟩ := does_not_acquire (f := unlocked i) hwait
    have hleft := hreleases hrelease
    obtain ⟨early, joins, afterJoin, rfl, hearly, hafterJoin, hticket, hjoined⟩ :=
      does_joinLock (fun m hm => hi m (List.mem_append_left _ hm)) hjoin
    obtain ⟨beforeLeave, leaves, late, rfl, hbeforeLeave, hlate, hreleased⟩ :=
      does_releaseLock (fun m hm => hi m (by simp [hm])) hrelease
    refine .inr ⟨rfl, ticket, {
      spared := hjoins.append (hwaits.append (hleft.append hlast.leaves))
      stood := ⟨early, joins, afterJoin ++ waiting ++ beforeLeave, leaves, late ++ last, by simp,
        hticket, hjoined, hreleased ▸ Locks.absent_release _ _⟩
      others := fun htidy => ?_ }⟩
    refine .append (hearly.leaves.append (.cons (fun _ => ?_) hafterJoin.leaves))
      ((does_not_acquire hwait).2.append
        (.append (hbeforeLeave.leaves.append (.cons (fun _ => ?_) hlate.leaves)) hlast.leaves))
    · rw [hjoined, hticket]
      exact (htidy joins (by simp)).others_join uri
    · rw [hreleased]
      exact Locks.others_release ..

end Lock

/-- One has only stood in line: nothing has changed but the locks, and these are for everybody else
as they were. At the beginning and at the end one has no place in line. -/
structure Withdrawn (a : Actor) (i : Nat) (moments : List (Moment (World ε)))
    (w w' : World ε) : Prop where
  spared : Leaves a (unlocked i) moments
  others : ∃ ticket, (w.connection i).locks.Absent ticket ∧
    (w'.connection i).locks.Absent ticket ∧
    Leaves a (fun w => (w.connection i).locks.others ticket) moments

/-- The locks are as they were if nobody else has touched them. -/
theorem Withdrawn.locks_eq {R : Rules (World ε) κ ρ} {start c : Crew (World ε) κ ρ}
    (h : Withdrawn a i moments start.state c.state) (run : Run R start moments c)
    (hothers : ∀ m ∈ moments, m.actor ≠ a →
      (m.after.connection i).locks = (m.before.connection i).locks) :
    (c.state.connection i).locks.table = (start.state.connection i).locks.table ∧
      (c.state.connection i).locks.handles = (start.state.connection i).locks.handles := by
  obtain ⟨ticket, hstart, hend, hleaves⟩ := h.others
  have heq := hleaves.eq run fun m hm ha => by rw [hothers m hm ha]
  rw [Locks.others_of_absent hstart, Locks.others_of_absent hend] at heq
  exact Prod.mk.inj heq

theorem Withdraws.withdrawn {doc : κ → Option String} {Q : κ → Stage → ρ → Prop}
    {R : Rules (World ε) κ ρ} {start c : Crew (World ε) κ ρ} {P : Actor → Stage} {wire : Wire}
    {ticket : Nat} (h : Withdraws a i uri ticket moments)
    (hR : R.Obeys (discipline ε i) (fun x => Stage.first (doc x)) Q)
    (hattended : Attended i doc Q wire P start) (run : Run R start moments c)
    (htidy : (start.state.connection i).locks.Tidy) :
    Withdrawn a i moments start.state c.state := by
  have hlater := (hattended.later hR run).2
  refine ⟨h.spared, ticket, ?_, ?_, h.others fun m hm => (hlater m hm).1.tidy htidy⟩
  · obtain ⟨early, joins, waiting, leaves, late, rfl, rfl, -⟩ := h.stood
    exact htidy.absent_of_le (hlater joins (by simp)).1.nextTicket
  · obtain ⟨early, joins, waiting, leaves, late, rfl, hticket, hjoined, hleft⟩ := h.stood
    obtain ⟨_, c₁, c₂, rfl, hearly, hjoin, hafter⟩ := run.split
    obtain ⟨P₁, h₁⟩ := hattended.run hR hearly
    obtain ⟨P₂, -, h₂⟩ := h₁.move hR hjoin
    obtain ⟨_, c₃, c₄, rfl, hwaiting, hleave, hlate⟩ := hafter.split
    obtain ⟨P₃, h₃⟩ := h₂.run hR hwaiting
    obtain ⟨P₄, -, h₄⟩ := h₃.move hR hleave
    -- the ticket was given before it was given back
    have hgiven : ticket < (c₂.state.connection i).locks.nextTicket := by
      rw [hticket, hjoined, Locks.nextTicket_join]
      exact Nat.lt_succ_self _
    have hlt := Nat.lt_of_lt_of_le hgiven
      ((h₂.later hR hafter).2 _ (List.mem_append_right _ (List.mem_cons_self ..))).2.nextTicket
    exact (h₄.later hR hlate).1.absent ticket hlt hleft

end Document

end LspClient
