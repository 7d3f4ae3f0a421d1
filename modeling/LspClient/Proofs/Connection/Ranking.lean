import LspClient.Proofs.Connection.Closing
import LspClient.Proofs.Connection.Conduct

/-!
# Standings along a run

In every run of the programs of a connection everybody has come to a standing (`Standings`): callers
to that of a request, nobody but one to that of the closer, who has set the flag, and whoever has
left the line to `past`.
-/

namespace LspClient.Connection

open Calls Crew

variable {ε : Type}

/-- Anything else may happen that leaves the calls and the outbox of the connection alone. -/
def SparesMail (i : Nat) (w w' : World ε) : Prop :=
  w.connections.length ≤ w'.connections.length ∧
    (w'.connection i).calls = (w.connection i).calls ∧
    (w'.connection i).outbox = (w.connection i).outbox

/-- The rules of the programs of a connection, whose outbox is theirs, too. -/
def strictRules (ε : Type) (i : Nat) : Rules (World ε) Ask Outcome :=
  { rules ε i with Outside := SparesMail i }

section

variable (i : Nat)

/-- The flag is set that keeps new requests out. -/
def BeginsClosing (m : Moment (World ε)) : Prop :=
  (callsBefore i m).closing = false ∧ (callsAfter i m).closing = true

/-- Somebody is let out of the line, with a command that was queued or without. -/
def LeavesLine (m : Moment (World ε)) : Prop :=
  (m.after.connection i).outbox.line.length < (m.before.connection i).outbox.line.length

end

variable {i : Nat} {moments : Moments ε} {w : World ε} {c c' : Crew (World ε) Ask Outcome}
  {P : Actor → Standing} {a : Actor}

/-! ### Who is at which standing -/

/-- The standing of a request. -/
def Standing.Requests : Standing → Prop
  | .asking | .ahead | .past => True
  | _ => False

section Does

variable {g g' : Standing} {x x' : Connection}

theorem Does.requests_iff (h : Does g x x' g') : g'.Requests ↔ g.Requests := by
  cases h <;> exact .rfl

theorem Does.past (h : Does .past x x' g') : g' = .past := by
  cases h <;> rfl

theorem Does.closing (h : Does g x x' g') (hx : x.calls.closing = true) :
    x'.calls.closing = true := by
  cases h with
  | rest | check | drain | complete => exact hx
  | begin => rfl
  | serve h | ask h | leave h | wait h | close h => exact h.closing.trans hx

/-- One who sets the flag goes on to close. -/
theorem Does.begins (h : Does g x x' g') (hx : x.calls.closing = false)
    (hx' : x'.calls.closing = true) : g' = .closer [] := by
  cases h with
  | begin => rfl
  | rest | check | drain | complete => cases hx.symm.trans hx'
  | serve h | ask h | leave h | wait h | close h => cases hx.symm.trans (h.closing.symm.trans hx')

/-- One who closes has done so before, or has just set the flag. -/
theorem Does.closer {held : List (Nat × Outcome)} (h : Does g x x' (.closer held)) :
    (∃ held', g = .closer held') ∨ x.calls.closing = false ∧ x'.calls.closing = true := by
  cases h with
  | begin h => exact .inr ⟨h, rfl⟩
  | _ => exact .inl ⟨_, rfl⟩

theorem Does.of_closer {held : List (Nat × Outcome)} (h : Does (.closer held) x x' g') :
    ∃ held', g' = .closer held' := by
  cases h <;> exact ⟨_, rfl⟩

theorem Does.leavesLine (h : Does g x x' g') (hg : g.Requests)
    (hline : x'.outbox.line.length < x.outbox.line.length) : g' = .past := by
  cases h with
  | rest | check => exact absurd hline (Nat.lt_irrefl _)
  | ask _ hle => exact absurd hline (Nat.not_lt.2 hle)
  | leave | wait => rfl
  | serve | begin | drain | complete | close => cases hg

end Does

theorem obeys_strictRules (ε : Type) (i : Nat) :
    (strictRules ε i).Obeys (standing ε i) (fun _ => .asking) fun _ _ _ => True where
  program _ := does_request
  serves p hp := by
    have hrest {p : Work ε Bool} (h : Stays i .idle p) :
        Program.Follows (standing ε i) p .idle (standing ε i).AtRest :=
      h.mono fun _ _ hg => ⟨trivial, fun _ => hg⟩
    cases hp with
    | errorReader errors => exact hrest stays_errorReader
    | writer => exact hrest stays_writer
    | reader => exact hrest stays_reader
    | shutdown => exact does_shutdown.once.atRest
    | notify method params =>
      exact hrest (((stays_notify allows_idle).bind fun _ => .pure ()).bind fun _ => .pure false)
  outside w w' hinv h :=
    ⟨Nat.lt_of_lt_of_le hinv h.1, .serve (.of_eq h.2.1 h.2.2)⟩

/-- What is true of a run and the standings that its members have come to. -/
structure Standings (i : Nat) (moments : Moments ε) (P : Actor → Standing)
    (c : Crew (World ε) Ask Outcome) : Prop where
  staged : Staged (standing ε i) (fun _ _ _ => True) P c
  requests : ∀ n ask p, c.clients[n]? = some (ask, p) → (P (.client n)).Requests
  services : ∀ j, ¬ (P (.service j)).Requests
  flag : ∀ a held, P a = .closer held → (c.state.connection i).calls.closing = true
  closer_unique : ∀ a b held held', P a = .closer held → P b = .closer held' → a = b
  began : ∀ m ∈ moments, BeginsClosing i m → ∃ held, P m.actor = .closer held
  left : ∀ m ∈ moments, ∀ n, m.actor = .client n → LeavesLine i m → P (.client n) = .past

theorem standings_nil (hi : i < w.connections.length) :
    Standings i [] (fun _ => .idle) (Crew.ofState w : Crew (World ε) Ask Outcome) where
  staged := staged_ofState hi
  requests n ask p hn := by simp [Crew.ofState] at hn
  services _ := id
  flag a held h := by cases h
  closer_unique a b held held' h := by cases h
  began := nofun
  left := nofun

theorem Standings.closer_unique_acts {g : Standing} {b d : Actor}
    {held held' : List (Nat × Outcome)} (h : Standings i moments P c)
    (hdoes : Does (P a) (c.state.connection i) (c'.state.connection i) g)
    (hb : Function.update P a g b = .closer held) (hd : Function.update P a g d = .closer held') :
    b = d := by
  -- one who sets the flag is alone, as it was not set before
  have hone {d : Actor} {held held' : List (Nat × Outcome)} (hg : g = .closer held)
      (hd : P d = .closer held') : a = d := by
    rw [hg] at hdoes
    rcases hdoes.closer with ⟨held'', hheld⟩ | ⟨hunset, -⟩
    · exact h.closer_unique a d held'' held' hheld hd
    · cases hunset.symm.trans (h.flag d held' hd)
  rcases of_update (· = Standing.closer held) hb with ⟨hba, hb⟩ | ⟨-, hb⟩ <;>
    rcases of_update (· = Standing.closer held') hd with ⟨hda, hd⟩ | ⟨-, hd⟩
  · exact hba.trans hda.symm
  · exact hba.trans (hone hb hd)
  · exact (hda.trans (hone hd hb)).symm
  · exact h.closer_unique b d held held' hb hd

theorem Standings.acts {g : Standing} (h : Standings i moments P c)
    (hmove : Move (strictRules ε i) c a c') (hnone : NoneEnters c c')
    (hdoes : Does (P a) (c.state.connection i) (c'.state.connection i) g)
    (hstaged : Staged (standing ε i) (fun _ _ _ => True) (Function.update P a g) c') :
    Standings i (moments ++ [⟨a, c.state, c'.state⟩]) (Function.update P a g) c' := by
  have hothers {b : Actor} (hb : b ≠ a) : Function.update P a g b = P b :=
    Function.update_of_ne hb ..
  have hrequests (n : Nat) (ask : Ask) (p : Work ε Outcome) (hn : c'.clients[n]? = some (ask, p)) :
      (P (.client n)).Requests := by
    obtain ⟨q, hq⟩ := hnone n ask p hn
    exact h.requests n ask q hq
  refine ⟨hstaged, fun n ask p hn => ?_, fun j hj => h.services j ?_, fun b held hb => ?_,
    fun b d held held' hb hd => ?_, fun m hm hbegins => ?_, fun m hm n hactor hleaves => ?_⟩
  -- the actor that acts stands as its step says, all others stand as they did
  · have hbefore := hrequests n ask p hn
    by_cases hna : Actor.client n = a
    · subst hna
      rw [Function.update_self]
      exact hdoes.requests_iff.2 hbefore
    · rwa [hothers hna]
  · rcases of_update Standing.Requests hj with ⟨rfl, hnew⟩ | ⟨-, hj⟩
    · exact hdoes.requests_iff.1 hnew
    · exact hj
  · rcases of_update (· = Standing.closer held) hb with ⟨rfl, rfl⟩ | ⟨-, hb⟩
    · rcases hdoes.closer with ⟨held', hheld'⟩ | ⟨-, hset⟩
      · exact hdoes.closing (h.flag b held' hheld')
      · exact hset
    · exact hdoes.closing (h.flag b held hb)
  · exact h.closer_unique_acts hdoes hb hd
  · rcases List.mem_append.1 hm with hm | hm
    · obtain ⟨held, hheld⟩ := h.began m hm hbegins
      by_cases hma : m.actor = a
      · rw [hma, Function.update_self]
        rw [← hma, hheld] at hdoes
        exact hdoes.of_closer
      · exact ⟨held, (hothers hma).trans hheld⟩
    · obtain rfl := List.mem_singleton.1 hm
      rw [Function.update_self]
      exact ⟨[], hdoes.begins hbegins.1 hbegins.2⟩
  · rcases List.mem_append.1 hm with hm | hm
    · have hpast := h.left m hm n hactor hleaves
      by_cases hna : Actor.client n = a
      · rw [hna, Function.update_self]
        rw [← hna, hpast] at hdoes
        exact hdoes.past
      · exact (hothers hna).trans hpast
    · obtain rfl := List.mem_singleton.1 hm
      subst hactor
      rw [Function.update_self]
      exact hdoes.leavesLine (hrequests n _ _ (List.getElem?_eq_getElem hmove.client_lt)) hleaves

theorem Standings.enters {ask : Ask} {p : Work ε Outcome} (h : Standings i moments P c)
    (hs : c'.state = c.state) (hc : c'.clients = c.clients ++ [(ask, p)])
    (hstaged : Staged (standing ε i) (fun _ _ _ => True)
      (Function.update P (.client c.clients.length) .asking) c') :
    Standings i (moments ++ [⟨.client c.clients.length, c.state, c'.state⟩])
      (Function.update P (.client c.clients.length) .asking) c' := by
  -- the client that enters has no standing yet, so none is lost
  have hidle : P (.client c.clients.length) = .idle := h.staged.clients.idle _ (Nat.le_refl _)
  have hothers {b : Actor} {held : List (Nat × Outcome)}
      (hb : Function.update P (.client c.clients.length) .asking b = .closer held) :
      P b = .closer held :=
    ((of_update (· = Standing.closer held) hb).resolve_left fun h => nomatch h.2).2
  have hnew (m : Moment (World ε)) (hm : P m.actor ≠ .idle) :
      Function.update P (.client c.clients.length) .asking m.actor = P m.actor := by
    refine Function.update_of_ne (fun hactor => hm ?_) ..
    rw [hactor, hidle]
  refine ⟨hstaged, fun n x q hn => ?_, fun j hj => h.services j ?_, fun b held hb => ?_,
    fun b d held held' hb hd => ?_, fun m hm hbegins => ?_, fun m hm n hactor hleaves => ?_⟩
  · by_cases hlen : n = c.clients.length
    · subst hlen
      rw [Function.update_self]
      trivial
    · rw [Function.update_of_ne (by simpa using hlen)]
      rw [hc] at hn
      have hlt := (List.getElem?_eq_some_iff.1 hn).1
      rw [List.length_append, List.length_singleton] at hlt
      rw [List.getElem?_append_left (by omega)] at hn
      exact h.requests n x q hn
  · rwa [Function.update_of_ne (by simp)] at hj
  · rw [hs]
    exact h.flag b held (hothers hb)
  · exact h.closer_unique b d held held' (hothers hb) (hothers hd)
  · rcases List.mem_append.1 hm with hm | hm
    · obtain ⟨held, hheld⟩ := h.began m hm hbegins
      refine ⟨held, (hnew m ?_).trans hheld⟩
      rw [hheld]
      simp
    · obtain rfl := List.mem_singleton.1 hm
      obtain ⟨hbefore, hafter⟩ := hbegins
      rw [callsAfter, hs] at hafter
      cases hbefore.symm.trans hafter
  · rcases List.mem_append.1 hm with hm | hm
    · have hpast := h.left m hm n hactor hleaves
      rw [← hactor] at hpast ⊢
      refine (hnew m ?_).trans hpast
      rw [hpast]
      simp
    · obtain rfl := List.mem_singleton.1 hm
      rw [LeavesLine, hs] at hleaves
      exact absurd hleaves (Nat.lt_irrefl _)

theorem exists_standings (hi : i < w.connections.length)
    (run : Run (strictRules ε i) (Crew.ofState w) moments c) : ∃ P, Standings i moments P c := by
  induction run with
  | nil => exact ⟨_, standings_nil hi⟩
  | move run hmove ih =>
    obtain ⟨P, h⟩ := ih
    obtain ⟨P', hgoes, hstaged⟩ := hmove.staged (obeys_strictRules ε i) h.staged
    cases hgoes with
    | acts hacts hnone => exact ⟨_, h.acts hmove hnone hacts.2 hstaged⟩
    | enters hs hc => exact ⟨_, h.enters hs hc hstaged⟩
    | hands _ hhands => exact hhands.elim

end LspClient.Connection
