import LspClient.Document.Locks
import LspClient.Proofs.Program.Crew
import Mathlib.Data.List.Nodup
import Mathlib.Data.List.Perm.Subperm

/-!
# Taking turns

The lock of a URI is held by one at a time. All handles on a URI are on the lock that the table
gives for it (`Locks.Sound.entry`), and a handle that is held is the first on its lock
(`Locks.Sound.first`), so two of them are one (`ticket_unique`). `Queued` ties this to whoever
stands in line for a URI: a handle belongs to one party.
-/

namespace LspClient

namespace Locks

variable {l l' : Locks} {h h' : LockHandle} {ticket : Nat} {uri : String}

structure Sound (l : Locks) : Prop where
  nodup : (l.handles.map (·.ticket)).Nodup
  ticket_lt : ∀ h ∈ l.handles, h.ticket < l.nextTicket
  entry : ∀ h ∈ l.handles, l.table.get? h.uri = some h.lock
  first : ∀ h ∈ l.handles, h.held = true → l.isFirst h = true

theorem sound_empty : empty.Sound := ⟨.nil, nofun, nofun, nofun⟩

theorem isFirst_iff : l.isFirst h = true ↔
    ∃ first, l.handles.find? (fun other => other.lock == h.lock) = some first ∧
      first.ticket = h.ticket := by
  rw [isFirst, Option.any_eq_true]
  constructor
  · rintro ⟨first, hfirst, heq⟩
    exact ⟨first, hfirst, by simpa using heq⟩
  · rintro ⟨first, hfirst, heq⟩
    exact ⟨first, hfirst, by simpa using heq⟩

theorem handle?_eq_some (hs : l.handle? ticket = some h) :
    h ∈ l.handles ∧ h.ticket = ticket := by
  refine ⟨List.mem_of_find?_eq_some hs, ?_⟩
  have heq := List.find?_some hs
  simpa using heq

namespace Sound

theorem eq_of_ticket (hl : l.Sound) (hh : h ∈ l.handles) (hh' : h' ∈ l.handles)
    (heq : h.ticket = h'.ticket) : h = h' :=
  List.inj_on_of_nodup_map hl.nodup hh hh' heq

/-- Of one URI at most one handle is held. -/
theorem ticket_unique (hl : l.Sound) (hh : h ∈ l.handles) (hh' : h' ∈ l.handles)
    (huri : h.uri = h'.uri) (hheld : h.held = true) (hheld' : h'.held = true) :
    h.ticket = h'.ticket := by
  have hlock : h.lock = h'.lock := by
    have hentry := hl.entry h hh
    rw [huri, hl.entry h' hh'] at hentry
    exact (Option.some.inj hentry).symm
  obtain ⟨first, hfirst, heq⟩ := isFirst_iff.1 (hl.first h hh hheld)
  obtain ⟨first', hfirst', heq'⟩ := isFirst_iff.1 (hl.first h' hh' hheld')
  rw [hlock, hfirst'] at hfirst
  cases hfirst
  rw [← heq, heq']

end Sound

/-! ### Joining -/

/-- The lock of a URI is found or made, and no other entry changes. -/
theorem lockOf_spec (l : Locks) (uri : String) :
    (l.lockOf uri).2.handles = l.handles ∧ (l.lockOf uri).2.nextTicket = l.nextTicket ∧
      (l.lockOf uri).2.table.get? uri = some (l.lockOf uri).1 ∧
      ∀ uri' lock, l.table.get? uri' = some lock →
        (l.lockOf uri).2.table.get? uri' = some lock := by
  unfold lockOf
  split
  · next lock hlock => exact ⟨rfl, rfl, hlock, fun _ _ h => h⟩
  · next hnone =>
    refine ⟨rfl, rfl, Table.get?_put_self _ _ _, fun uri' lock hlock => ?_⟩
    have hne : uri ≠ uri' := by
      rintro rfl
      cases hnone.symm.trans hlock
    rw [Table.get?_put_ne _ _ hne, hlock]

theorem handles_join (l : Locks) (uri : String) :
    (l.join uri).2.handles = l.handles ++ [⟨l.nextTicket, uri, (l.lockOf uri).1, false⟩] := by
  obtain ⟨hhandles, hnext, -, -⟩ := lockOf_spec l uri
  rw [← hhandles, ← hnext]
  rfl

theorem Sound.join (hl : l.Sound) (uri : String) : (l.join uri).2.Sound := by
  obtain ⟨-, hnext, hentry, hothers⟩ := lockOf_spec l uri
  have hnextTicket : (l.join uri).2.nextTicket = l.nextTicket + 1 := by
    rw [← hnext]
    rfl
  constructor
  case nodup =>
    rw [handles_join, List.map_append]
    refine List.nodup_append.2 ⟨hl.nodup, List.nodup_singleton _, fun t ht t' ht' heq => ?_⟩
    obtain ⟨h, hh, rfl⟩ := List.mem_map.1 ht
    have hlt := hl.ticket_lt h hh
    obtain rfl := List.mem_singleton.1 ht'
    exact absurd heq (Nat.ne_of_lt hlt)
  case ticket_lt =>
    intro h hh
    rw [handles_join] at hh
    rw [hnextTicket]
    rcases List.mem_append.1 hh with hh | hh
    · have hlt := hl.ticket_lt h hh
      omega
    · obtain rfl := List.mem_singleton.1 hh
      exact Nat.lt_succ_self _
  case entry =>
    intro h hh
    rw [handles_join] at hh
    rcases List.mem_append.1 hh with hh | hh
    · exact hothers h.uri h.lock (hl.entry h hh)
    · obtain rfl := List.mem_singleton.1 hh
      exact hentry
  case first =>
    intro h hh hheld
    rw [handles_join] at hh
    rcases List.mem_append.1 hh with hh | hh
    · obtain ⟨first, hfirst, heq⟩ := isFirst_iff.1 (hl.first h hh hheld)
      refine isFirst_iff.2 ⟨first, ?_, heq⟩
      rw [handles_join, List.find?_append, hfirst]
      rfl
    · obtain rfl := List.mem_singleton.1 hh
      cases hheld

/-! ### Acquiring -/

/-- The handles after the one with the ticket has been given the lock. -/
def give (ticket : Nat) (handles : List LockHandle) : List LockHandle :=
  handles.map fun other => if other.ticket = ticket then { other with held := true } else other

theorem acquire_eq_some (hs : l.acquire ticket = some l') :
    ∃ h ∈ l.handles, h.ticket = ticket ∧ l.isFirst h = true ∧
      l' = { l with handles := give ticket l.handles } := by
  unfold acquire at hs
  split at hs
  · next h hh =>
    obtain ⟨hmem, heq⟩ := handle?_eq_some hh
    obtain ⟨hfirst, heq'⟩ := Option.ite_none_right_eq_some.1 hs
    exact ⟨h, hmem, heq, hfirst, (Option.some.inj heq').symm⟩
  · cases hs

theorem mem_give {handles : List LockHandle} (hh : h ∈ give ticket handles) :
    ∃ h' ∈ handles, h.ticket = h'.ticket ∧ h.uri = h'.uri ∧ h.lock = h'.lock ∧
      (h.held = true → h'.held = true ∨ h'.ticket = ticket) := by
  obtain ⟨h', hh', rfl⟩ := List.mem_map.1 hh
  refine ⟨h', hh', ?_⟩
  split
  · next heq => exact ⟨rfl, rfl, rfl, fun _ => .inr heq⟩
  · exact ⟨rfl, rfl, rfl, .inl⟩

theorem give_of_mem (ticket : Nat) {handles : List LockHandle} (hh : h ∈ handles) :
    ∃ h' ∈ give ticket handles, h'.ticket = h.ticket ∧ h'.uri = h.uri ∧
      (h.held = true ∨ h.ticket = ticket → h'.held = true) := by
  refine ⟨_, List.mem_map_of_mem hh, ?_⟩
  split
  · exact ⟨rfl, rfl, fun _ => rfl⟩
  · next hne => exact ⟨rfl, rfl, fun hor => hor.resolve_right hne⟩

/-- Who is first hangs on locks and tickets alone. -/
theorem isFirst_give (hlock : h.lock = h'.lock) (hticket : h.ticket = h'.ticket)
    (hfirst : l.isFirst h' = true) :
    ({ l with handles := give ticket l.handles } : Locks).isFirst h = true := by
  obtain ⟨first, hfind, heq⟩ := isFirst_iff.1 hfirst
  refine isFirst_iff.2
    ⟨if first.ticket = ticket then { first with held := true } else first, ?_, ?_⟩
  · have hcomp : ((fun other : LockHandle => other.lock == h.lock) ∘ fun other =>
        if other.ticket = ticket then { other with held := true } else other) =
        fun other => other.lock == h'.lock := by
      funext other
      rw [← hlock]
      simp only [Function.comp_apply]
      split <;> rfl
    change (List.map _ l.handles).find? _ = _
    rw [List.find?_map, hcomp, hfind]
    rfl
  · rw [hticket, ← heq]
    split <;> rfl

theorem Sound.acquire (hl : l.Sound) (hs : l.acquire ticket = some l') : l'.Sound := by
  obtain ⟨h₀, hh₀, hticket, hfirst, rfl⟩ := acquire_eq_some hs
  constructor
  case nodup =>
    have htickets : (give ticket l.handles).map (·.ticket) = l.handles.map (·.ticket) := by
      rw [give, List.map_map]
      refine List.map_congr_left fun h _ => ?_
      simp only [Function.comp_apply]
      split <;> rfl
    change ((give ticket l.handles).map (·.ticket)).Nodup
    rw [htickets]
    exact hl.nodup
  case ticket_lt =>
    intro h hh
    obtain ⟨h', hh', heq, -, -, -⟩ := mem_give hh
    rw [heq]
    exact hl.ticket_lt h' hh'
  case entry =>
    intro h hh
    obtain ⟨h', hh', -, huri, hlock, -⟩ := mem_give hh
    rw [huri, hlock]
    exact hl.entry h' hh'
  case first =>
    intro h hh hheld
    -- who held its lock was first before, and who acquires it is first by the guard
    obtain ⟨h', hh', heq, -, hlock, hor⟩ := mem_give hh
    refine isFirst_give hlock heq ?_
    rcases hor hheld with hheld' | heq'
    · exact hl.first h' hh' hheld'
    · rw [hl.eq_of_ticket hh' hh₀ (heq'.trans hticket.symm)]
      exact hfirst

/-! ### Releasing -/

theorem find?_filter_of_find? {α : Type} {p q : α → Bool} {xs : List α} {x : α}
    (hx : xs.find? p = some x) (hq : q x = true) : (xs.filter q).find? p = some x := by
  induction xs with
  | nil => cases hx
  | cons y ys ih =>
    rw [List.find?_cons] at hx
    split at hx
    · next hy =>
      cases hx
      rw [List.filter_cons_of_pos hq, List.find?_cons, hy]
    · next hy =>
      rw [List.filter_cons]
      split
      · rw [List.find?_cons, hy]
        exact ih hx
      · exact ih hx

theorem handles_release (l : Locks) (ticket : Nat) :
    (l.release ticket).handles = l.handles.filter fun other => other.ticket ≠ ticket := by
  unfold release
  split
  · next hnone =>
    rw [eq_comm, List.filter_eq_self]
    intro h hh
    have hne := List.find?_eq_none.1 hnone h hh
    simpa using hne
  · rfl

theorem two_le_countP_lock {handles : List LockHandle} {lock : Nat} (hh : h ∈ handles)
    (hh' : h' ∈ handles) (hne : h ≠ h') (hlock : h.lock = lock) (hlock' : h'.lock = lock) :
    2 ≤ handles.countP fun other => other.lock == lock := by
  have hsub : [h, h'].Subperm (handles.filter fun other => other.lock == lock) := by
    refine List.Nodup.subperm (by simpa using hne) fun other hother => List.mem_filter.2 ?_
    rcases List.mem_pair.1 hother with rfl | rfl
    · exact ⟨hh, beq_iff_eq.2 hlock⟩
    · exact ⟨hh', beq_iff_eq.2 hlock'⟩
  rw [List.countP_eq_length_filter]
  exact hsub.length_le

theorem Sound.release (hl : l.Sound) (ticket : Nat) : (l.release ticket).Sound := by
  have hmem {h : LockHandle} (hh : h ∈ (l.release ticket).handles) :
      h ∈ l.handles ∧ h.ticket ≠ ticket := by
    rw [handles_release] at hh
    simpa using List.mem_filter.1 hh
  have hnext : (l.release ticket).nextTicket = l.nextTicket := by
    unfold Locks.release
    split <;> rfl
  constructor
  case nodup =>
    rw [handles_release]
    exact (List.filter_sublist.map _).nodup hl.nodup
  case ticket_lt =>
    intro h hh
    rw [hnext]
    exact hl.ticket_lt h (hmem hh).1
  case entry =>
    intro h hh
    obtain ⟨hold, hne⟩ := hmem hh
    have hentry := hl.entry h hold
    unfold Locks.release
    split
    · exact hentry
    · next h₀ hh₀ =>
      obtain ⟨hmem₀, heq₀⟩ := handle?_eq_some hh₀
      dsimp only
      split
      · next hidle =>
        -- the entry only goes when no other handle is on its lock
        rw [Bool.and_eq_true, beq_iff_eq, beq_iff_eq] at hidle
        by_cases huri : h₀.uri = h.uri
        · have hlock : h.lock = h₀.lock := by
            have hentry₀ := hl.entry h₀ hmem₀
            rw [huri, hentry] at hentry₀
            exact Option.some.inj hentry₀
          have htwo := two_le_countP_lock hmem₀ hold
            (fun heq => hne (heq ▸ heq₀)) rfl hlock
          have hidle := hidle.2
          unfold references at hidle
          omega
        · rw [Table.get?_erase_ne _ huri, hentry]
      · exact hentry
  case first =>
    intro h hh hheld
    obtain ⟨hold, hne⟩ := hmem hh
    obtain ⟨first, hfirst, heq⟩ := isFirst_iff.1 (hl.first h hold hheld)
    refine isFirst_iff.2 ⟨first, ?_, heq⟩
    rw [handles_release]
    exact find?_filter_of_find? hfirst (by simpa [heq] using hne)

end Locks

/-! ### Those who stand in line -/

namespace Document

open Locks

/-- The place of one who waits for the lock of a URI, or holds it. -/
structure Turn where
  uri : String
  ticket : Nat
  held : Bool

structure Queued (turns : Actor → Option Turn) (l : Locks) : Prop where
  sound : l.Sound
  there : ∀ a n, turns a = some n →
    ∃ h ∈ l.handles, h.ticket = n.ticket ∧ h.uri = n.uri ∧ (n.held = true → h.held = true)
  unique : ∀ a a' n n', turns a = some n → turns a' = some n' → n.ticket = n'.ticket → a = a'

variable {turns : Actor → Option Turn} {l l' : Locks} {a : Actor} {uri : String} {ticket : Nat}

theorem queued_empty : Queued (fun _ => none) Locks.empty := ⟨sound_empty, nofun, nofun⟩

namespace Queued

variable (hq : Queued turns l)

include hq

theorem ticket_lt {n : Turn} (hn : turns a = some n) : n.ticket < l.nextTicket := by
  obtain ⟨h, hh, heq, -, -⟩ := hq.there a n hn
  rw [← heq]
  exact hq.sound.ticket_lt h hh

/-- At most one has the lock of a URI. -/
theorem holder_unique {a' : Actor} {n n' : Turn} (hn : turns a = some n)
    (hn' : turns a' = some n') (huri : n.uri = n'.uri) (hheld : n.held = true)
    (hheld' : n'.held = true) : a = a' := by
  obtain ⟨h, hh, hticket, hhuri, hhold⟩ := hq.there a n hn
  obtain ⟨h', hh', hticket', hhuri', hhold'⟩ := hq.there a' n' hn'
  have heq := hq.sound.ticket_unique hh hh' ((hhuri.trans huri).trans hhuri'.symm) (hhold hheld)
    (hhold' hheld')
  exact hq.unique a a' n n' hn hn' (by rw [← hticket, heq, hticket'])

theorem join (uri : String) (a : Actor) :
    Queued (Function.update turns a (some ⟨uri, l.nextTicket, false⟩)) (l.join uri).2 := by
  refine ⟨hq.sound.join uri, fun b n hn => ?_, fun b b' n n' hn hn' heq => ?_⟩
  · rw [handles_join]
    rcases of_update_some hn with ⟨-, rfl⟩ | ⟨-, hn⟩
    · exact ⟨_, List.mem_append_right _ (List.mem_singleton_self _), rfl, rfl, nofun⟩
    · obtain ⟨h, hh, hrest⟩ := hq.there b n hn
      exact ⟨h, List.mem_append_left _ hh, hrest⟩
  · rcases of_update_some hn with ⟨hb, rfl⟩ | ⟨-, hn⟩ <;>
      rcases of_update_some hn' with ⟨hb', rfl⟩ | ⟨-, hn'⟩
    · exact hb.trans hb'.symm
    · exact absurd heq.symm (Nat.ne_of_lt (hq.ticket_lt hn'))
    · exact absurd heq (Nat.ne_of_lt (hq.ticket_lt hn))
    · exact hq.unique b b' n n' hn hn' heq

theorem acquire (hn : turns a = some ⟨uri, ticket, false⟩) (hs : l.acquire ticket = some l') :
    Queued (Function.update turns a (some ⟨uri, ticket, true⟩)) l' := by
  have hold {b : Actor} {n : Turn}
      (hb : Function.update turns a (some ⟨uri, ticket, true⟩) b = some n) :
      ∃ m, turns b = some m ∧ n.ticket = m.ticket ∧ n.uri = m.uri ∧
        (n.held = true → m.held = true ∨ n.ticket = ticket) := by
    rcases of_update_some hb with ⟨rfl, rfl⟩ | ⟨-, hb⟩
    · exact ⟨_, hn, rfl, rfl, fun _ => .inr rfl⟩
    · exact ⟨n, hb, rfl, rfl, .inl⟩
  refine ⟨hq.sound.acquire hs, fun b n hb => ?_, fun b b' n n' hb hb' heq => ?_⟩
  · obtain ⟨h₀, -, -, -, rfl⟩ := acquire_eq_some hs
    obtain ⟨m, hm, hticket, huri, hheld⟩ := hold hb
    obtain ⟨h, hh, heq, hhuri, hhold⟩ := hq.there b m hm
    obtain ⟨h', hh', heq', hhuri', hhold'⟩ := give_of_mem ticket hh
    refine ⟨h', hh', heq'.trans (heq.trans hticket.symm), hhuri'.trans (hhuri.trans huri.symm),
      fun hheld' => hhold' ?_⟩
    rcases hheld hheld' with hm' | ht
    · exact .inl (hhold hm')
    · exact .inr (heq.trans (hticket.symm.trans ht))
  · obtain ⟨m, hm, hticket, -, -⟩ := hold hb
    obtain ⟨m', hm', hticket', -, -⟩ := hold hb'
    exact hq.unique b b' m m' hm hm' (by rw [← hticket, heq, hticket'])

theorem release {held : Bool} (hn : turns a = some ⟨uri, ticket, held⟩) :
    Queued (Function.update turns a none) (l.release ticket) := by
  refine ⟨hq.sound.release ticket, fun b n hb => ?_, fun b b' n n' hb hb' heq => ?_⟩
  · obtain ⟨hba, hb⟩ := of_update_none hb
    obtain ⟨h, hh, heq, hrest⟩ := hq.there b n hb
    have hne : h.ticket ≠ ticket := fun ht =>
      hba (hq.unique b a n _ hb hn (heq.symm.trans ht))
    rw [handles_release]
    exact ⟨h, List.mem_filter.2 ⟨hh, by simpa using hne⟩, heq, hrest⟩
  · exact hq.unique b b' n n' (of_update_none hb).2 (of_update_none hb').2 heq

end Queued

end Document

end LspClient
