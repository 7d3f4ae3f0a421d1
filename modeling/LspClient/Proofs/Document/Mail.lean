import LspClient.Connection.Basic
import LspClient.Proofs.Document.Notes
import LspClient.Proofs.Program.Crew

/-!
# Frames on their way

What is queued in an outbox or being written is in transit. A document note in transit belongs to
one party that waits for the report on it (`Mailed.owned`), and a party that waits has its note in
transit or the report on it, but not both (`Mailed.posted`).
-/

namespace LspClient

/-- The frame of a command, and the ticket of the one who waits for the report. -/
def Command.sent? : Command → Option (Json × Option Nat)
  | .send frame ticket => some (frame, ticket)
  | .shutdown => none

namespace Document

/-- What one has to do with an outbox: one stands in line, or has posted a frame, which is given if
it is a note. -/
inductive Post where
  | inLine (ticket : Nat)
  | posted (ticket : Nat) (note : Option Json)

def Post.ticket : Post → Nat
  | .inLine k => k
  | .posted k _ => k

structure Mailed (posts : Actor → Option Post) (transit : List (Json × Option Nat))
    (deliveries : Table Nat Delivery) (next : Nat) : Prop where
  unique : ∀ a a' n n', posts a = some n → posts a' = some n' → n.ticket = n'.ticket → a = a'
  ticket_lt : ∀ a n, posts a = some n → n.ticket < next
  transit_lt : ∀ frame k, (frame, some k) ∈ transit → k < next
  delivered_lt : ∀ k, deliveries.get? k ≠ none → k < next
  nodup : (transit.filterMap (·.2)).Nodup
  inLine : ∀ a k, posts a = some (.inLine k) →
    (∀ frame, (frame, some k) ∉ transit) ∧ deliveries.get? k = none
  posted : ∀ a k frame, posts a = some (.posted k (some frame)) →
    ((frame, some k) ∈ transit ∧ deliveries.get? k = none) ∨
      ((∀ frame', (frame', some k) ∉ transit) ∧ deliveries.get? k ≠ none)
  owned : ∀ frame ticket, (frame, ticket) ∈ transit → noteOf frame ≠ none →
    ∃ a k, ticket = some k ∧ posts a = some (.posted k (some frame))

theorem mailed_empty : Mailed (fun _ => none) [] [] 0 where
  unique := nofun
  ticket_lt := nofun
  transit_lt := nofun
  delivered_lt _ h := absurd rfl h
  nodup := .nil
  inLine := nofun
  posted := nofun
  owned := nofun

/-- What has been reported, after one more report. -/
def reported (deliveries : Table Nat Delivery) (ticket : Option Nat) (d : Delivery) :
    Table Nat Delivery :=
  match ticket with
  | some k => deliveries.put k d
  | none => deliveries

theorem get?_reported (deliveries : Table Nat Delivery) (ticket : Option Nat) (d : Delivery)
    (k : Nat) : (reported deliveries ticket d).get? k =
      if ticket = some k then some d else deliveries.get? k := by
  cases ticket with
  | none => rfl
  | some k' =>
    change (deliveries.put k' d).get? k = _
    by_cases heq : k' = k
    · subst heq
      rw [Table.get?_put_self, if_pos rfl]
    · rw [Table.get?_put_ne _ _ heq, if_neg (fun h => heq (Option.some.inj h))]

/-- What has been reported, after frames were dropped. -/
def dropped (sent : List (Json × Option Nat)) (deliveries : Table Nat Delivery) :
    Table Nat Delivery :=
  sent.foldl (fun deliveries e => reported deliveries e.2 .dropped) deliveries

namespace Mailed

variable {posts : Actor → Option Post} {transit : List (Json × Option Nat)}
  {deliveries : Table Nat Delivery} {next k : Nat} {a : Actor} {frame : Json}

section

variable (h : Mailed posts transit deliveries next)

include h

/-- A ticket in transit belongs to one frame. -/
theorem frame_unique {frame' : Json} (hk : (frame, some k) ∈ transit)
    (hk' : (frame', some k) ∈ transit) : frame = frame' := by
  have hnodup := h.nodup
  clear h
  induction transit with
  | nil => cases hk
  | cons e rest ih =>
    obtain ⟨f, t⟩ := e
    have hmem {g : Json} (hg : (g, some k) ∈ rest) : k ∈ rest.filterMap (·.2) :=
      List.mem_filterMap.2 ⟨_, hg, rfl⟩
    cases t with
    | none =>
      rw [List.mem_cons] at hk hk'
      have hne {g : Json} : (g, some k) ≠ (f, none) := nofun
      exact ih (hk.resolve_left hne) (hk'.resolve_left hne) hnodup
    | some k' =>
      obtain ⟨hnot, hrest⟩ := List.nodup_cons.1 hnodup
      rcases List.mem_cons.1 hk with heq | hin <;> rcases List.mem_cons.1 hk' with heq' | hin'
      · cases heq
        cases heq'
        rfl
      · cases heq
        exact absurd (hmem hin') hnot
      · cases heq'
        exact absurd (hmem hin) hnot
      · exact ih hin hin' hrest

/-- To get in line. -/
theorem join (ha : posts a = none) :
    Mailed (Function.update posts a (some (.inLine next))) transit deliveries (next + 1) := by
  constructor
  case unique =>
    intro b b' n n' hb hb' heq
    rcases of_update_some hb with ⟨hba, rfl⟩ | ⟨-, hb⟩ <;>
      rcases of_update_some hb' with ⟨hba', rfl⟩ | ⟨-, hb'⟩
    · exact hba.trans hba'.symm
    · exact absurd heq.symm (Nat.ne_of_lt (h.ticket_lt b' n' hb'))
    · exact absurd heq (Nat.ne_of_lt (h.ticket_lt b n hb))
    · exact h.unique b b' n n' hb hb' heq
  case ticket_lt =>
    intro b n hb
    rcases of_update_some hb with ⟨-, rfl⟩ | ⟨-, hb⟩
    · exact Nat.lt_succ_self next
    · exact Nat.lt_succ_of_lt (h.ticket_lt b n hb)
  case transit_lt => exact fun f k hk => Nat.lt_succ_of_lt (h.transit_lt f k hk)
  case delivered_lt => exact fun k hk => Nat.lt_succ_of_lt (h.delivered_lt k hk)
  case nodup => exact h.nodup
  case inLine =>
    intro b k hb
    rcases of_update_some hb with ⟨-, heq⟩ | ⟨-, hb⟩
    · cases heq
      refine ⟨fun f hf => absurd (h.transit_lt f next hf) (Nat.lt_irrefl next), ?_⟩
      by_contra hne
      exact Nat.lt_irrefl next (h.delivered_lt next hne)
    · exact h.inLine b k hb
  case posted =>
    intro b k f hb
    rcases of_update_some hb with ⟨-, heq⟩ | ⟨-, hb⟩
    · cases heq
    · exact h.posted b k f hb
  case owned =>
    intro f t hf hnote
    obtain ⟨b, k, rfl, hb⟩ := h.owned f t hf hnote
    refine ⟨b, k, rfl, ?_⟩
    rw [Function.update_of_ne, hb]
    rintro rfl
    rw [ha] at hb
    cases hb

/-- To have no more to do with the outbox. A note is only left to itself when it is reported on. -/
theorem drop
    (hdone : ∀ k frame, posts a = some (.posted k (some frame)) → deliveries.get? k ≠ none) :
    Mailed (Function.update posts a none) transit deliveries next := by
  have hold {b : Actor} {n : Post} (hb : Function.update posts a none b = some n) :
      posts b = some n := (of_update_none hb).2
  constructor
  case unique => exact fun b b' n n' hb hb' => h.unique b b' n n' (hold hb) (hold hb')
  case ticket_lt => exact fun b n hb => h.ticket_lt b n (hold hb)
  case transit_lt => exact h.transit_lt
  case delivered_lt => exact h.delivered_lt
  case nodup => exact h.nodup
  case inLine => exact fun b k hb => h.inLine b k (hold hb)
  case posted => exact fun b k f hb => h.posted b k f (hold hb)
  case owned =>
    intro f t hf hnote
    obtain ⟨b, k, rfl, hb⟩ := h.owned f t hf hnote
    refine ⟨b, k, rfl, ?_⟩
    rw [Function.update_of_ne, hb]
    rintro rfl
    rcases h.posted b k f hb with ⟨-, hnone⟩ | ⟨hnot, -⟩
    · exact hdone k f hb hnone
    · exact hnot f hf

/-- The report on a ticket that is nobody's may go. -/
theorem erase (hk : ∀ b n, posts b = some n → n.ticket ≠ k) :
    Mailed posts transit (deliveries.erase k) next := by
  have hget {b : Actor} {n : Post} (hb : posts b = some n) :
      (deliveries.erase k).get? n.ticket = deliveries.get? n.ticket :=
    Table.get?_erase_ne _ (hk b n hb).symm
  constructor
  case unique => exact h.unique
  case ticket_lt => exact h.ticket_lt
  case transit_lt => exact h.transit_lt
  case delivered_lt =>
    intro k' hk'
    refine h.delivered_lt k' fun hnone => hk' ?_
    by_cases heq : k = k'
    · subst heq
      exact Table.get?_erase_self _ _
    · rw [Table.get?_erase_ne _ heq, hnone]
  case nodup => exact h.nodup
  case inLine =>
    intro b k' hb
    have hget := hget hb
    change (deliveries.erase k).get? k' = deliveries.get? k' at hget
    rw [hget]
    exact h.inLine b k' hb
  case posted =>
    intro b k' f hb
    have hget := hget hb
    change (deliveries.erase k).get? k' = deliveries.get? k' at hget
    rw [hget]
    exact h.posted b k' f hb
  case owned => exact h.owned

/-- To leave the line, or take the report away. -/
theorem withdraw {n : Post} (ha : posts a = some n)
    (hdone : ∀ frame, n = .posted n.ticket (some frame) → deliveries.get? n.ticket ≠ none) :
    Mailed (Function.update posts a none) transit (deliveries.erase n.ticket) next := by
  have hdrop : Mailed (Function.update posts a none) transit deliveries next := by
    refine h.drop fun k frame hk => ?_
    rw [ha] at hk
    cases hk
    exact hdone frame rfl
  refine hdrop.erase fun b m hb heq => ?_
  obtain ⟨hba, hb⟩ := of_update_none hb
  exact hba (h.unique b a m n hb ha heq)

/-- A frame gets in transit that is no note, and that nobody waits for. -/
theorem offer (hnote : noteOf frame = none) :
    Mailed posts (transit ++ [(frame, none)]) deliveries next := by
  have hmem {f : Json} {k : Nat} : (f, some k) ∈ transit ++ [(frame, none)] ↔
      (f, some k) ∈ transit := by
    simp
  constructor
  case unique => exact h.unique
  case ticket_lt => exact h.ticket_lt
  case transit_lt => exact fun f k hk => h.transit_lt f k (hmem.1 hk)
  case delivered_lt => exact h.delivered_lt
  case nodup =>
    rw [List.filterMap_append, List.filterMap_cons, List.filterMap_nil, List.append_nil]
    exact h.nodup
  case inLine =>
    intro b k hb
    simp only [hmem]
    exact h.inLine b k hb
  case posted =>
    intro b k f hb
    simp only [hmem]
    exact h.posted b k f hb
  case owned =>
    intro f t hf hne
    rcases List.mem_append.1 hf with hf | hf
    · exact h.owned f t hf hne
    · cases List.mem_singleton.1 hf
      exact absurd hnote hne

/-- One who stands in line posts a frame, and remembers it if it is a note. -/
theorem post {note : Option Json} (ha : posts a = some (.inLine k))
    (hnote : note = some frame ∨ note = none ∧ noteOf frame = none) :
    Mailed (Function.update posts a (some (.posted k note))) (transit ++ [(frame, some k)])
      deliveries next := by
  -- a ticket in line is neither in transit nor reported yet
  obtain ⟨hnew, hnone⟩ := h.inLine a k ha
  have hold {b : Actor} {n : Post}
      (hb : Function.update posts a (some (.posted k note)) b = some n) :
      (b = a ∧ n = .posted k note) ∨ posts b = some n ∧ n.ticket ≠ k := by
    refine (of_update_some hb).imp_right fun ⟨hba, hb⟩ => ⟨hb, fun heq => ?_⟩
    exact hba (h.unique b a n _ hb ha heq)
  have hmem {f : Json} {k' : Nat} (hne : k' ≠ k) :
      (f, some k') ∈ transit ++ [(frame, some k)] ↔ (f, some k') ∈ transit := by
    simp [hne]
  constructor
  case unique =>
    intro b b' n n' hb hb' heq
    rcases hold hb with ⟨hba, rfl⟩ | ⟨hb, hne⟩ <;>
      rcases hold hb' with ⟨hba', rfl⟩ | ⟨hb', hne'⟩
    · exact hba.trans hba'.symm
    · exact absurd heq.symm hne'
    · exact absurd heq hne
    · exact h.unique b b' n n' hb hb' heq
  case ticket_lt =>
    intro b n hb
    rcases hold hb with ⟨-, rfl⟩ | ⟨hb, -⟩
    · exact h.ticket_lt a (.inLine k) ha
    · exact h.ticket_lt b n hb
  case transit_lt =>
    intro f k' hf
    rcases List.mem_append.1 hf with hf | hf
    · exact h.transit_lt f k' hf
    · cases List.mem_singleton.1 hf
      exact h.ticket_lt a (.inLine k) ha
  case delivered_lt => exact h.delivered_lt
  case nodup =>
    rw [List.filterMap_append]
    refine List.nodup_append.2 ⟨h.nodup, by simp, fun t ht t' ht' heq => ?_⟩
    obtain ⟨⟨f, t'⟩, hf, rfl⟩ := List.mem_filterMap.1 ht
    obtain rfl : t' = k := by simpa using ht'
    subst heq
    exact hnew f hf
  case inLine =>
    intro b k' hb
    rcases hold hb with ⟨-, heq⟩ | ⟨hb, hne⟩
    · cases heq
    · have hne' : k' ≠ k := hne
      simp only [hmem hne']
      exact h.inLine b k' hb
  case posted =>
    intro b k' f hb
    rcases hold hb with ⟨-, heq⟩ | ⟨hb, hne⟩
    · cases heq
      rcases hnote with heq | ⟨heq, -⟩
      · cases heq
        exact .inl ⟨List.mem_append_right _ (List.mem_singleton_self _), hnone⟩
      · cases heq
    · have hne' : k' ≠ k := hne
      simp only [hmem hne']
      exact h.posted b k' f hb
  case owned =>
    intro f t hf hne
    rcases List.mem_append.1 hf with hf | hf
    · obtain ⟨b, k', rfl, hb⟩ := h.owned f t hf hne
      refine ⟨b, k', rfl, ?_⟩
      rw [Function.update_of_ne, hb]
      rintro rfl
      cases ha.symm.trans hb
    · cases List.mem_singleton.1 hf
      rcases hnote with rfl | ⟨-, hnote⟩
      · exact ⟨a, k, rfl, Function.update_self ..⟩
      · exact absurd hnote hne

end

/-- A frame that is in transit is no more, and is reported on. -/
theorem report {before after : List (Json × Option Nat)} {ticket : Option Nat} {d : Delivery}
    (h : Mailed posts (before ++ (frame, ticket) :: after) deliveries next) :
    Mailed posts (before ++ after) (reported deliveries ticket d) next := by
  have hsub {e : Json × Option Nat} (he : e ∈ before ++ after) :
      e ∈ before ++ (frame, ticket) :: after := by
    rcases List.mem_append.1 he with he | he
    · exact List.mem_append_left _ he
    · exact List.mem_append_right _ (List.mem_cons_of_mem _ he)
  -- a ticket is in transit once, so it leaves with the frame that is reported
  have hticket {k : Nat} (hk : ticket = some k) :
      (frame, some k) ∈ before ++ (frame, ticket) :: after ∧
        ∀ f, (f, some k) ∉ before ++ after := by
    subst hk
    refine ⟨List.mem_append_right _ (List.mem_cons_self ..), fun f hf => ?_⟩
    have hnodup := h.nodup
    rw [List.filterMap_append, List.filterMap_cons] at hnodup
    have hnot := (List.nodup_cons.1 (List.perm_middle.nodup_iff.1 hnodup)).1
    rw [← List.filterMap_append] at hnot
    exact hnot (List.mem_filterMap.2 ⟨_, hf, rfl⟩)
  constructor
  case unique => exact h.unique
  case ticket_lt => exact h.ticket_lt
  case transit_lt => exact fun f k hf => h.transit_lt f k (hsub hf)
  case delivered_lt =>
    intro k hk
    rw [get?_reported] at hk
    split at hk
    · next heq => exact h.transit_lt frame k (hticket heq).1
    · exact h.delivered_lt k hk
  case nodup =>
    refine (List.Sublist.filterMap _ ?_).nodup h.nodup
    exact (List.Sublist.refl before).append (List.sublist_cons_self ..)
  case inLine =>
    intro b k hb
    obtain ⟨hnot, hnone⟩ := h.inLine b k hb
    refine ⟨fun f hf => hnot f (hsub hf), ?_⟩
    rw [get?_reported, if_neg (fun heq => hnot frame (hticket heq).1), hnone]
  case posted =>
    intro b k f hb
    rw [get?_reported]
    split
    · next heq => exact .inr ⟨(hticket heq).2, Option.some_ne_none d⟩
    · next hne =>
      refine (h.posted b k f hb).imp (fun hin => ⟨?_, hin.2⟩) fun hout =>
        ⟨fun f' hf' => hout.1 f' (hsub hf'), hout.2⟩
      rcases List.mem_append.1 hin.1 with hmem | hmem
      · exact List.mem_append_left _ hmem
      · rcases List.mem_cons.1 hmem with heq | hmem
        · cases heq
          exact absurd rfl hne
        · exact List.mem_append_right _ hmem
  case owned => exact fun f t hf hne => h.owned f t (hsub hf) hne

end Mailed

end Document

end LspClient
