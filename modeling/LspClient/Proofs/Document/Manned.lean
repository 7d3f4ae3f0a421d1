import LspClient.Proofs.Document.InStep

/-!
# Those in line for a lock

Every entry of a table of locks has a lock of its own and somebody who is in line for it (`Tidy`).
It rests on the count of references that is taken when a handle is dropped: it is two exactly for
the last one in line (`Tidy.references_eq`). Where every handle belongs to somebody who is in line
(`Manned`), it goes on belonging to one when somebody joins the line, gets the lock or drops the
handle.
-/

namespace LspClient

namespace Locks

/-! ### Tables of locks -/

variable {l l' : Locks} {h h' : LockHandle} {ticket lock : Nat} {uri : String}

/-- Every entry has a lock of its own and somebody who is in line for it; tickets are given in
order. -/
structure Tidy (l : Locks) : Prop extends Sound l where
  locks : (l.table.map (·.2)).Nodup
  lock_lt : ∀ e ∈ l.table, e.2 < l.nextLock
  used : ∀ e ∈ l.table, ∃ h ∈ l.handles, h.uri = e.1
  inOrder : l.handles.Pairwise fun h h' => h.ticket < h'.ticket

theorem tidy_empty : empty.Tidy :=
  { sound_empty with
    locks := .nil
    lock_lt := nofun
    used := nofun
    inOrder := .nil }

namespace Tidy

variable (hl : l.Tidy)

include hl

theorem uri_eq {e e' : String × Nat} (he : e ∈ l.table) (he' : e' ∈ l.table) (heq : e.2 = e'.2) :
    e = e' :=
  List.inj_on_of_nodup_map hl.locks he he' heq

/-- A lock is referred to by its entry and by those who are in line for it. -/
theorem references_eq (hentry : l.table.get? uri = some lock) :
    l.references lock = 1 + 2 * l.handles.countP fun h => h.lock == lock := by
  have hmem : lock ∈ l.table.map (·.2) := List.mem_map_of_mem (Table.mem_of_get? hentry)
  have hone : l.table.countP (fun e => e.2 == lock) = 1 := by
    rw [← List.count_eq_one_of_mem hl.locks hmem, List.count, List.countP_map]
    rfl
  rw [references, hone]

/-- Who is not first came after somebody who is on the same lock. -/
theorem exists_ahead (hh : h ∈ l.handles) (hfirst : l.isFirst h = false) :
    ∃ h' ∈ l.handles, h'.uri = h.uri ∧ h'.ticket < h.ticket := by
  obtain ⟨first, hfind⟩ : ∃ first, l.handles.find? (fun o => o.lock == h.lock) = some first := by
    rw [← Option.isSome_iff_exists, List.find?_isSome]
    exact ⟨h, hh, beq_self_eq_true _⟩
  have hmem := List.mem_of_find?_eq_some hfind
  have hlock : first.lock = h.lock := by simpa using List.find?_some hfind
  have hne : first.ticket ≠ h.ticket := fun heq =>
    absurd (isFirst_iff.2 ⟨first, hfind, heq⟩) (by simp [hfirst])
  refine ⟨first, hmem, ?_, ?_⟩
  · have heq := hl.uri_eq (Table.mem_of_get? (hl.entry first hmem))
      (Table.mem_of_get? (hl.entry h hh)) hlock
    exact (Prod.mk.inj heq).1
  · obtain ⟨before, after, heq, hbefore⟩ := List.find?_eq_some_iff_append.1 hfind |>.2
    have horder := hl.inOrder
    rw [heq] at horder hh
    rcases List.mem_append.1 hh with hh | hh
    · exact absurd (hbefore h hh) (by simp)
    · rcases List.mem_cons.1 hh with rfl | hh
      · exact absurd rfl hne
      · exact List.rel_of_pairwise_cons (List.pairwise_append.1 horder).2.1 hh

end Tidy

theorem table_join (l : Locks) (uri : String) :
    (l.join uri).2.table = (l.lockOf uri).2.table ∧
      (l.join uri).2.nextLock = (l.lockOf uri).2.nextLock := ⟨rfl, rfl⟩

/-- The lock of a URI is found, or a new one is entered. -/
theorem lockOf_cases (l : Locks) (uri : String) :
    (l.lockOf uri).2 = l ∧ l.table.get? uri ≠ none ∨
      (l.lockOf uri).2.table = l.table ++ [(uri, l.nextLock)] ∧
        (l.lockOf uri).2.nextLock = l.nextLock + 1 := by
  unfold lockOf
  split
  · next lock hlock => exact .inl ⟨rfl, by simp [hlock]⟩
  · next hnone => exact .inr ⟨Table.put_of_get?_none hnone _, rfl⟩

theorem Tidy.join (hl : l.Tidy) (uri : String) : (l.join uri).2.Tidy := by
  obtain ⟨htable, hnextLock⟩ := table_join l uri
  have hhandles := handles_join l uri
  have hnew : ∃ h ∈ (l.join uri).2.handles, h.uri = uri := by
    rw [hhandles]
    exact ⟨_, List.mem_append_right _ (List.mem_singleton_self _), rfl⟩
  have hold : ∀ e ∈ l.table, ∃ h ∈ (l.join uri).2.handles, h.uri = e.1 := by
    intro e he
    obtain ⟨h, hh, heq⟩ := hl.used e he
    rw [hhandles]
    exact ⟨h, List.mem_append_left _ hh, heq⟩
  have horder : (l.join uri).2.handles.Pairwise fun h h' => h.ticket < h'.ticket := by
    rw [hhandles]
    refine List.pairwise_append.2 ⟨hl.inOrder, List.pairwise_singleton _ _, fun h hh h' hh' => ?_⟩
    rw [List.mem_singleton.1 hh']
    exact hl.ticket_lt h hh
  -- the entry was there before, or is made with the next lock
  rcases lockOf_cases l uri with ⟨hsame, -⟩ | ⟨htable', hnextLock'⟩
  · rw [hsame] at htable hnextLock
    exact { hl.toSound.join uri with
      locks := by rw [htable]; exact hl.locks
      lock_lt := by rw [htable, hnextLock]; exact hl.lock_lt
      used := by rw [htable]; exact hold
      inOrder := horder }
  · rw [htable'] at htable
    rw [hnextLock'] at hnextLock
    have hcases {e : String × Nat} (he : e ∈ (l.join uri).2.table) :
        e ∈ l.table ∨ e = (uri, l.nextLock) := by
      rw [htable] at he
      exact (List.mem_append.1 he).imp_right List.mem_singleton.1
    exact { hl.toSound.join uri with
      locks := by
        rw [htable, List.map_append]
        refine List.nodup_append.2
          ⟨hl.locks, List.nodup_singleton _, fun lock hlock lock' hlock' heq => ?_⟩
        obtain ⟨e, he, rfl⟩ := List.mem_map.1 hlock
        obtain rfl := List.mem_singleton.1 hlock'
        exact Nat.ne_of_lt (hl.lock_lt e he) heq
      lock_lt := fun e he => by
        rw [hnextLock]
        rcases hcases he with he | rfl
        · exact Nat.lt_succ_of_lt (hl.lock_lt e he)
        · exact Nat.lt_succ_self _
      used := fun e he => by
        rcases hcases he with he | rfl
        · exact hold e he
        · exact hnew
      inOrder := horder }

theorem Tidy.acquire (hl : l.Tidy) (hs : l.acquire ticket = some l') : l'.Tidy := by
  have hsound := hl.toSound.acquire hs
  obtain ⟨-, -, -, -, rfl⟩ := acquire_eq_some hs
  exact { hsound with
    locks := hl.locks
    lock_lt := hl.lock_lt
    used := fun e he => by
      obtain ⟨h, hh, heq⟩ := hl.used e he
      obtain ⟨h', hh', -, huri, -⟩ := give_of_mem ticket hh
      exact ⟨h', hh', huri.trans heq⟩
    inOrder := by
      refine List.pairwise_map.2 (hl.inOrder.imp fun {h h'} hlt => ?_)
      split <;> split <;> exact hlt }

/-- A handle is the only one on its lock. -/
def Last (l : Locks) (h : LockHandle) : Prop := ∀ h' ∈ l.handles, h'.lock = h.lock → h' = h

instance (l : Locks) (h : LockHandle) : Decidable (l.Last h) :=
  inferInstanceAs (Decidable (∀ h' ∈ l.handles, h'.lock = h.lock → h' = h))

theorem Sound.last_iff (hl : l.Sound) (hh : h ∈ l.handles) :
    l.Last h ↔ l.handles.countP (fun o => o.lock == h.lock) = 1 := by
  constructor
  · intro hlast
    have hpos : 0 < l.handles.countP fun o => o.lock == h.lock :=
      List.countP_pos_iff.2 ⟨h, hh, beq_self_eq_true _⟩
    have hsub : (l.handles.filter fun o => o.lock == h.lock).Subperm [h] := by
      refine List.Nodup.subperm ((List.Nodup.of_map _ hl.nodup).filter _) fun o ho => ?_
      obtain ⟨ho, hlock⟩ := List.mem_filter.1 ho
      exact List.mem_singleton.2 (hlast o ho (by simpa using hlock))
    have hle := hsub.length_le
    rw [← List.countP_eq_length_filter, List.length_singleton] at hle
    omega
  · intro hone h' hh' hlock
    by_contra hne
    have htwo := two_le_countP_lock hh' hh hne hlock rfl
    omega

/-- The references that are left when a turn is given up are two exactly for the last handle. So it
takes the entry with it, and no other one does. -/
theorem Tidy.table_release (hl : l.Tidy) (hh : l.handle? ticket = some h) :
    (l.release ticket).table = if l.Last h then l.table.erase h.uri else l.table := by
  obtain ⟨hmem, -⟩ := handle?_eq_some hh
  have hentry := hl.entry h hmem
  have hidle : (l.table.get? h.uri == some h.lock && l.references h.lock - 1 == 2) = true ↔
      l.Last h := by
    rw [hl.last_iff hmem, hentry, beq_self_eq_true, Bool.true_and, beq_iff_eq,
      hl.references_eq hentry]
    omega
  unfold Locks.release
  rw [hh]
  exact if_congr hidle rfl rfl

theorem Tidy.release (hl : l.Tidy) (ticket : Nat) : (l.release ticket).Tidy := by
  cases hh : l.handle? ticket with
  | none =>
    unfold Locks.release
    rwa [hh]
  | some h =>
    obtain ⟨hmem, hticket⟩ := handle?_eq_some hh
    have htable := hl.table_release hh
    have hhandles := handles_release l ticket
    have hsub : List.Sublist (l.release ticket).table l.table := by
      rw [htable]
      split
      · exact List.filter_sublist
      · exact .refl _
    have hnextLock : (l.release ticket).nextLock = l.nextLock := by
      unfold Locks.release
      rw [hh]
    have hstays {h' : LockHandle} (hh' : h' ∈ l.handles) (hne : h' ≠ h) :
        h' ∈ (l.release ticket).handles := by
      rw [hhandles]
      refine List.mem_filter.2 ⟨hh', decide_eq_true fun heq => hne ?_⟩
      exact hl.eq_of_ticket hh' hmem (heq.trans hticket.symm)
    exact { hl.toSound.release ticket with
      locks := (hsub.map _).nodup hl.locks
      lock_lt := fun e he => hnextLock ▸ hl.lock_lt e (hsub.subset he)
      used := fun e he => by
        obtain ⟨h', hh', huri⟩ := hl.used e (hsub.subset he)
        by_cases hne : h' = h
        · -- the entry was there for the handle that is dropped, so there is another one
          subst hne
          rw [htable] at he
          split at he
          · obtain ⟨-, hkey⟩ := List.mem_filter.1 he
            exact absurd huri.symm (by simpa using hkey)
          · next hlast =>
            obtain ⟨o, ho, hrest⟩ : ∃ o ∈ l.handles, ¬ (o.lock = h'.lock → o = h') := by
              simpa [Last] using hlast
            obtain ⟨hlock, hne⟩ := Classical.not_imp.1 hrest
            have heq := hl.uri_eq (Table.mem_of_get? (hl.entry o ho))
              (Table.mem_of_get? (hl.entry h' hmem)) hlock
            exact ⟨o, hstays ho hne, (Prod.mk.inj heq).1.trans huri⟩
        · exact ⟨h', hstays hh' hne, huri⟩
      inOrder := by
        rw [hhandles]
        exact hl.inOrder.filter _ }

end Locks

namespace Document

open Locks

/-! ### Those in line, and nobody else -/

variable {turns : Actor → Option Turn} {l l' : Locks} {a : Actor} {uri : String} {ticket : Nat}

/-- Every handle belongs to somebody who is in line. -/
structure Manned (turns : Actor → Option Turn) (l : Locks) : Prop extends Queued turns l where
  tidy : l.Tidy
  manned : ∀ h ∈ l.handles, ∃ a n, turns a = some n ∧ n.ticket = h.ticket

theorem manned_empty : Manned (fun _ => none) Locks.empty :=
  { queued_empty with
    tidy := tidy_empty
    manned := nofun }

namespace Manned

variable (hm : Manned turns l)

include hm

theorem join (ha : turns a = none) (uri : String) :
    Manned (Function.update turns a (some ⟨uri, l.nextTicket, false⟩)) (l.join uri).2 :=
  { hm.toQueued.join uri a with
    tidy := hm.tidy.join uri
    manned := fun h hh => by
      rw [handles_join] at hh
      rcases List.mem_append.1 hh with hh | hh
      · obtain ⟨b, n, hb, hticket⟩ := hm.manned h hh
        have hba : b ≠ a := by
          rintro rfl
          cases ha.symm.trans hb
        exact ⟨b, n, by rw [Function.update_of_ne hba, hb], hticket⟩
      · obtain rfl := List.mem_singleton.1 hh
        exact ⟨a, _, Function.update_self .., rfl⟩ }

theorem acquire (ha : turns a = some ⟨uri, ticket, false⟩) (hs : l.acquire ticket = some l') :
    Manned (Function.update turns a (some ⟨uri, ticket, true⟩)) l' :=
  { hm.toQueued.acquire ha hs with
    tidy := hm.tidy.acquire hs
    manned := fun h hh => by
      obtain ⟨-, -, -, -, rfl⟩ := acquire_eq_some hs
      obtain ⟨h', hh', heq, -⟩ := mem_give hh
      obtain ⟨b, n, hb, hticket⟩ := hm.manned h' hh'
      by_cases hba : b = a
      · subst hba
        cases ha.symm.trans hb
        exact ⟨b, _, Function.update_self .., hticket.trans heq.symm⟩
      · exact ⟨b, n, by rw [Function.update_of_ne hba, hb], hticket.trans heq.symm⟩ }

theorem release {held : Bool} (ha : turns a = some ⟨uri, ticket, held⟩) :
    Manned (Function.update turns a none) (l.release ticket) :=
  { hm.toQueued.release ha with
    tidy := hm.tidy.release ticket
    manned := fun h hh => by
      rw [handles_release] at hh
      obtain ⟨hh, hne⟩ := List.mem_filter.1 hh
      obtain ⟨b, n, hb, hticket⟩ := hm.manned h hh
      have hba : b ≠ a := by
        rintro rfl
        cases ha.symm.trans hb
        exact absurd hticket.symm (by simpa using hne)
      exact ⟨b, n, by rw [Function.update_of_ne hba, hb], hticket⟩ }

/-- Who is in line is on the lock that the table gives for its URI. -/
theorem handle {n : Turn} (hn : turns a = some n) : ∃ h, l.handle? n.ticket = some h ∧
    h ∈ l.handles ∧ h.uri = n.uri ∧ l.table.get? n.uri = some h.lock := by
  obtain ⟨h, hh, hticket, huri, -⟩ := hm.there a n hn
  refine ⟨h, ?_, hh, huri, huri ▸ hm.sound.entry h hh⟩
  obtain ⟨h', hh'⟩ : ∃ h', l.handle? n.ticket = some h' := by
    rw [← Option.isSome_iff_exists, handle?, List.find?_isSome]
    exact ⟨h, hh, beq_iff_eq.2 hticket⟩
  obtain ⟨hmem, hticket'⟩ := handle?_eq_some hh'
  rw [hh', hm.sound.eq_of_ticket hmem hh (hticket'.trans hticket.symm)]

/-- The handle of somebody in line is for the URI that it is in line for. -/
theorem exists_turn {h : LockHandle} (hh : h ∈ l.handles) :
    ∃ a n, turns a = some n ∧ n.ticket = h.ticket ∧ n.uri = h.uri := by
  obtain ⟨a, n, hn, hticket⟩ := hm.manned h hh
  obtain ⟨h', -, hh', huri, -⟩ := hm.handle hn
  obtain ⟨h'', hh'', hticket'', huri'', -⟩ := hm.there a n hn
  obtain rfl := hm.sound.eq_of_ticket hh'' hh (hticket''.trans hticket)
  exact ⟨a, n, hn, hticket, huri''.symm⟩

/-- Who waits in vain came after somebody who is in line for the same URI. -/
theorem exists_ahead {n : Turn} (hn : turns a = some n) (hs : l.acquire n.ticket = none) :
    ∃ b m, turns b = some m ∧ m.uri = n.uri ∧ m.ticket < n.ticket := by
  obtain ⟨h, hhandle, hh, huri, -⟩ := hm.handle hn
  have hticket := (handle?_eq_some hhandle).2
  have hfirst : l.isFirst h = false := by
    unfold Locks.acquire at hs
    rw [hhandle] at hs
    simpa using hs
  obtain ⟨h', hh', huri', hlt⟩ := hm.tidy.exists_ahead hh hfirst
  obtain ⟨b, m, hb, hmticket, hmuri⟩ := hm.exists_turn hh'
  exact ⟨b, m, hb, hmuri.trans (huri'.trans huri), by rw [hmticket, ← hticket]; exact hlt⟩

/-- There is no entry for a URI that nobody is in line for. -/
theorem entry_none (hnone : ∀ a n, turns a = some n → n.uri ≠ uri) : l.table.get? uri = none := by
  by_contra hsome
  obtain ⟨lock, hlock⟩ := Option.ne_none_iff_exists'.1 hsome
  obtain ⟨h, hh, huri⟩ := hm.tidy.used _ (Table.mem_of_get? hlock)
  obtain ⟨a, n, hn, -, hnuri⟩ := hm.exists_turn hh
  exact hnone a n hn (hnuri.trans huri)

end Manned

end Document

end LspClient
