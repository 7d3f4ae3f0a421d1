import LspClient.Proofs.Connection.Rejecting
import LspClient.Proofs.Connection.Sending

/-!
# Cancelling what was asked

A call that is given up is taken back by its caller, and if it was registered still the server is
told to cancel it. `CancelledInOrder` says of a run what its moments show of that: of no call is
there more than one cancellation, there is none of a call that is ever completed, and a cancellation
comes after its request.

The last has an exception. A call is registered before its request has a place in the queue. If it
is given up while it stands in line, it leaves the line without, is found registered, and is
cancelled like any other if there is room by then (`withdrawn_cancelled`). All of this holds of all
runs of a new connection in which the numbers do not start anew (`cancelled_in_order`).
-/

namespace LspClient.Connection

open Calls Crew

variable {ε : Type}

/-- The services of a connection. Nobody notifies the server of a cancellation. -/
inductive ServesOrderly (i : Nat) : Work ε Bool → Prop
  | errorReader (errors : Channel) : ServesOrderly i (errorReader i errors)
  | writer : ServesOrderly i (writer i)
  | reader : ServesOrderly i (reader i)
  | shutdown : ServesOrderly i (Program.once (shutdown i))
  | notify (method : String) (params : Option Json) (hmethod : method ≠ Method.cancelRequest) :
      ServesOrderly i (Program.once do let _ ← notify i method params)

/-- The rules of the programs of a connection, who leave cancellations to those who give up. -/
def orderlyRules (ε : Type) (i : Nat) : Rules (World ε) Ask Outcome :=
  { strictRules ε i with Serves := ServesOrderly i }

section

variable (i : Nat)

/-- The commands that are queued at a moment. -/
def queuedAt (m : Moment (World ε)) : List Command :=
  (m.before.connection i).outbox.added (m.after.connection i).outbox

/-- The commands that were queued, in order. -/
def queued (moments : Moments ε) : List Command := moments.flatMap (queuedAt i)

/-- Somebody leaves the line, and nothing is queued. -/
def Withdraws (m : Moment (World ε)) : Prop := LeavesLine i m ∧ queuedAt i m = []

/-- The caller of a number has had its request queued, or has left the line without. -/
def HasPlaced (moments : Moments ε) (a : Actor) (id : Nat) : Prop :=
  (∃ cmd ∈ queued i moments, cmd.AsksAs id) ∨ ∃ m ∈ moments, m.actor = a ∧ Withdraws i m

/-- The caller of a number has taken its call out of the table of registered calls. -/
def HasTakenBack (moments : Moments ε) (a : Actor) (id : Nat) : Prop :=
  ∃ earlier m later, moments = earlier ++ m :: later ∧ m.actor = a ∧ Leaves i m id ∧
    (a, id) ∈ numbersTaken i earlier

/-- Every cancellation comes after its request. -/
def RequestsFirst (cmds : List Command) : Prop :=
  ∀ earlier cmd later, cmds = earlier ++ cmd :: later → ∀ id, cmd.Cancels id →
    ∃ cmd' ∈ earlier, cmd'.AsksAs id

structure CancelledInOrder (moments : Moments ε) : Prop where
  /-- Who cancels has the number, and has asked, or has left the line before it could. -/
  preceded : ∀ earlier m later, moments = earlier ++ m :: later → ∀ cmd ∈ queuedAt i m,
    ∀ id, cmd.Cancels id → (m.actor, id) ∈ numbersTaken i earlier ∧ HasPlaced i earlier m.actor id
  requestsFirst : (∀ m ∈ moments, ¬ Withdraws i m) → RequestsFirst (queued i moments)
  once : (queued i moments).Pairwise fun cmd cmd' => ∀ id, cmd.Cancels id → ¬ cmd'.Cancels id
  uncompleted : ∀ m ∈ moments, ∀ id, Completes i m id → ∀ cmd ∈ queued i moments, ¬ cmd.Cancels id

end

variable {i : Nat} {moments earlier later : Moments ε} {w : World ε} {m : Moment (World ε)}
  {c c' : Crew (World ε) Ask Outcome} {a : Actor} {id : Nat}

/-! ### Calls that are taken back -/

theorem run_rules (run : Run (orderlyRules ε i) c' moments c) : Run (rules ε i) c' moments c :=
  run.mono rfl (fun p hp => by
    cases hp with
    | errorReader errors => exact .errorReader errors
    | writer => exact .writer
    | reader => exact .reader
    | shutdown => exact .shutdown
    | notify method params => exact .notify method params) fun _ _ h => ⟨h.1, h.2.1⟩

/-- A call that nobody is to complete is not completed, and will not be. -/
theorem Account.spent_acts {P : Actor → Party} {g : Party} (h : Account i moments P c)
    (hfew : (numbersTaken i moments).length ≤ numbers)
    (hacts : (discipline ε i).Acts (P a) c.state c'.state g)
    (hspent : Spent P (c.state.connection i).calls id) :
    ¬ Completes i ⟨a, c.state, c'.state⟩ id ∧
      Spent (Function.update P a g) (c'.state.connection i).calls id := by
  refine ⟨fun ⟨o, ho⟩ => ?_, h.sound.spent_acts hfew hacts.2 hspent⟩
  exact (h.sound.spent_of_completes hfew hacts.2 ho).1 hspent

/-- A call that is registered is not being completed. -/
theorem Account.not_completes {P : Actor → Party} {g : Party} (h : Account i moments P c)
    (hacts : (discipline ε i).Acts (P a) c.state c'.state g)
    (hid : (c.state.connection i).calls.pending.get? id ≠ none) :
    ¬ Completes i ⟨a, c.state, c'.state⟩ id := by
  rintro ⟨o, ho⟩
  have hheld := hacts.2.completes h.sound.keys ho
  have hmem : id ∈ (P a).held.map (·.1) := by
    rw [hheld]
    exact List.mem_cons_self
  exact hid (h.sound.get?_of_mem_held hmem)

theorem length_numbersTaken_le (moments later : Moments ε) :
    (numbersTaken i moments).length ≤ (numbersTaken i (moments ++ later)).length := by
  rw [numbersTaken, numbersTaken, List.flatMap_append, List.length_append]
  exact Nat.le_add_right _ _

/-- A call that its own caller takes back is never completed. -/
theorem not_completes_of_leaves {server : String} (hi : i < w.connections.length)
    (hcalls : (w.connection i).calls = ofServer server)
    (run : Run (rules ε i) (Crew.ofState w) (earlier ++ m :: later) c)
    (hfew : (numbersTaken i (earlier ++ m :: later)).length ≤ numbers)
    (hleaves : Leaves i m id) (hown : (m.actor, id) ∈ numbersTaken i earlier) :
    ∀ m' ∈ earlier ++ m :: later, ¬ Completes i m' id := by
  obtain ⟨a, c₁, c₂, rfl, hearlier, hmove, hlater⟩ := run.split
  have hfew₁ := Nat.le_trans (length_numbersTaken_le ..) hfew
  obtain ⟨P, h⟩ := exists_account hi hcalls hearlier hfew₁
  obtain ⟨g, hacts, hstaged⟩ := acts_of_move h.staged hmove
  have hspent := h.sound.spent_of_leaves hfew₁ hacts.2 hown hleaves.1 hleaves.2
  -- by induction on what follows: the number stays spent, and what is spent is not completed
  have hafter : ∃ P', Account i (earlier ++ ⟨a, c₁.state, c₂.state⟩ :: later) P' c ∧
      Spent P' (c.state.connection i).calls id ∧ ∀ m' ∈ later, ¬ Completes i m' id := by
    clear run
    induction hlater with
    | nil => exact ⟨_, h.acts hfew₁ hacts hstaged, hspent, nofun⟩
    | @move later c c' b hlater hm ih =>
      rw [← List.cons_append, ← List.append_assoc] at hfew ⊢
      have hfew' := Nat.le_trans (length_numbersTaken_le ..) hfew
      obtain ⟨P', h', hspent', hnone⟩ := ih hfew'
      obtain ⟨g', hacts', hstaged'⟩ := acts_of_move h'.staged hm
      obtain ⟨hnot, hspent''⟩ := h'.spent_acts hfew' hacts' hspent'
      refine ⟨_, h'.acts hfew' hacts' hstaged', hspent'', fun m' hm' => ?_⟩
      rcases List.mem_append.1 hm' with hm' | hm'
      · exact hnone m' hm'
      · rwa [List.mem_singleton.1 hm']
  obtain ⟨-, -, -, hnone⟩ := hafter
  intro m' hm' hcompletes
  rcases List.mem_append.1 hm' with hm' | hm'
  · obtain ⟨⟨method, hgone⟩, -⟩ := h.spent m' hm' id hcompletes
    exact hleaves.1 hgone.1
  · rcases List.mem_cons.1 hm' with rfl | hm'
    · exact h.not_completes hacts hleaves.1 hcompletes
    · exact hnone m' hm' hcompletes

/-! ### Tickets -/

/-- Nobody shares a ticket, and who stands in line is in it. -/
structure Tickets (P : Actor → Sender) (o : Outbox) : Prop where
  below : ∀ b t, (P b).place.ticket? = some t → t < o.nextTicket
  unique : ∀ b b' t, (P b).place.ticket? = some t → (P b').place.ticket? = some t → b = b'
  stands : ∀ b t, (P b).place = .inLine t → t ∈ o.line

section

variable {P : Actor → Sender} {p g : Sender} {x x' : Connection}

theorem Place.ticket?_inLine {place : Place} {t : Nat} (h : place = .inLine t) :
    place.ticket? = some t := by rw [h]; rfl

/-- What one makes of the line: nothing, or one joins it, or leaves it. -/
theorem Sends.line (h : Sends p x x' g) :
    (g.place = p.place ∧ x'.outbox.line = x.outbox.line ∧
      x'.outbox.nextTicket = x.outbox.nextTicket) ∨
    (g.place = .inLine x.outbox.nextTicket ∧
      x'.outbox.line = x.outbox.line ++ [x.outbox.nextTicket] ∧
      x'.outbox.nextTicket = x.outbox.nextTicket + 1) ∨
    ∃ t, p.place.ticket? = some t ∧ (g.place = .through t ∨ g.place = .away) ∧
      x'.outbox.line = x.outbox.line.filter (· ≠ t) ∧
      x'.outbox.nextTicket = x.outbox.nextTicket := by
  cases h with
  | rest h => exact .inl ⟨rfl, h.line, h.nextTicket⟩
  | number _ _ h => exact .inl ⟨rfl, by rw [h], by rw [h]⟩
  | takeBack => exact .inl ⟨rfl, rfl, rfl⟩
  | cancel =>
    refine .inl ⟨rfl, ?_⟩
    unfold offerCancel Outbox.offer
    dsimp only
    split <;> exact ⟨rfl, rfl⟩
  | join => exact .inr (.inl ⟨rfl, rfl, rfl⟩)
  | queue hplace ho =>
    obtain rfl := Outbox.eq_of_takeIn ho
    exact .inr (.inr ⟨_, Place.ticket?_inLine hplace, .inl rfl, rfl, rfl⟩)
  | ask ho =>
    obtain rfl := Outbox.eq_of_takeIn ho
    exact .inr (.inr ⟨_, rfl, .inl rfl, rfl, rfl⟩)
  | leave h => exact .inr (.inr ⟨_, h, .inr rfl, rfl, rfl⟩)
  | withdraw => exact .inr (.inr ⟨_, rfl, .inr rfl, rfl, rfl⟩)

theorem Tickets.stay {o o' : Outbox} (h : Tickets P o) (hplace : g.place = (P a).place)
    (hline : o'.line = o.line) (hnext : o'.nextTicket = o.nextTicket) :
    Tickets (Function.update P a g) o' := by
  have hsame (b : Actor) : (Function.update P a g b).place = (P b).place :=
    update_eq Sender.place hplace b
  refine ⟨fun b t => ?_, fun b b' t => ?_, fun b t => ?_⟩
  · rw [hsame, hnext]
    exact h.below b t
  · rw [hsame, hsame]
    exact h.unique b b' t
  · rw [hsame, hline]
    exact h.stands b t

/-- The ticket of one who joins the line is new, so nobody else has it. -/
theorem Tickets.join {o o' : Outbox} (h : Tickets P o) (hplace : g.place = .inLine o.nextTicket)
    (hline : o'.line = o.line ++ [o.nextTicket]) (hnext : o'.nextTicket = o.nextTicket + 1) :
    Tickets (Function.update P a g) o' := by
  have hcases (b : Actor) (t : Nat) (hb : (Function.update P a g b).place.ticket? = some t) :
      (b = a ∧ t = o.nextTicket) ∨ (P b).place.ticket? = some t := by
    rcases of_update (fun p : Sender => p.place.ticket? = some t) hb with ⟨rfl, hnew⟩ | ⟨-, hb⟩
    · rw [hplace] at hnew
      exact .inl ⟨rfl, (Option.some.inj hnew).symm⟩
    · exact .inr hb
  refine ⟨fun b t hb => ?_, fun b b' t hb hb' => ?_, fun b t hb => ?_⟩
  · rw [hnext]
    rcases hcases b t hb with ⟨-, rfl⟩ | hb
    · exact Nat.lt_succ_self _
    · exact Nat.lt_succ_of_lt (h.below b t hb)
  -- the ticket that is handed out is above every ticket in use
  · rcases hcases b t hb with ⟨hba, ht⟩ | hold <;>
      rcases hcases b' t hb' with ⟨hba', ht'⟩ | hold'
    · exact hba.trans hba'.symm
    · exact absurd (ht ▸ h.below b' t hold') (Nat.lt_irrefl _)
    · exact absurd (ht' ▸ h.below b t hold) (Nat.lt_irrefl _)
    · exact h.unique b b' t hold hold'
  · rw [hline, List.mem_append, List.mem_singleton]
    rcases of_update (fun p : Sender => p.place = .inLine t) hb with ⟨rfl, hnew⟩ | ⟨-, hb⟩
    · rw [hplace] at hnew
      cases hnew
      exact .inr rfl
    · exact .inl (h.stands b t hb)

theorem Tickets.leave {o o' : Outbox} {t : Nat} (h : Tickets P o)
    (ht : (P a).place.ticket? = some t) (hplace : g.place = .through t ∨ g.place = .away)
    (hline : o'.line = o.line.filter (· ≠ t)) (hnext : o'.nextTicket = o.nextTicket) :
    Tickets (Function.update P a g) o' := by
  have hbefore (b : Actor) (t' : Nat) (hb : (Function.update P a g b).place.ticket? = some t') :
      (P b).place.ticket? = some t' := by
    rcases of_update (fun p : Sender => p.place.ticket? = some t') hb with ⟨rfl, hnew⟩ | ⟨-, hb⟩
    · rcases hplace with hplace | hplace <;> rw [hplace] at hnew <;> cases hnew
      exact ht
    · exact hb
  refine ⟨fun b t' hb => hnext ▸ h.below b t' (hbefore b t' hb),
    fun b b' t' hb hb' => h.unique b b' t' (hbefore b t' hb) (hbefore b' t' hb'),
    fun b t' hb => ?_⟩
  obtain ⟨hba, hb⟩ : b ≠ a ∧ (P b).place = .inLine t' := by
    refine (of_update (fun p : Sender => p.place = .inLine t') hb).resolve_left ?_
    rintro ⟨-, hnew⟩
    rcases hplace with hplace | hplace <;> rw [hplace] at hnew <;> cases hnew
  rw [hline, List.mem_filter]
  refine ⟨h.stands b t' hb, decide_eq_true fun heq => ?_⟩
  subst heq
  exact hba (h.unique b a _ (Place.ticket?_inLine hb) ht)

theorem Tickets.sends (h : Tickets P x.outbox) (hs : Sends (P a) x x' g) :
    Tickets (Function.update P a g) x'.outbox := by
  rcases hs.line with ⟨hplace, hline, hnext⟩ | ⟨hplace, hline, hnext⟩ |
    ⟨t, ht, hplace, hline, hnext⟩
  · exact h.stay hplace hline hnext
  · exact h.join hplace hline hnext
  · exact h.leave ht hplace hline hnext

/-- One step queues one command at most, and a cancellation only as the last thing of a call. -/
theorem Sends.added (h : Sends p x x' g) : (x.outbox.added x'.outbox).length ≤ 1 ∧
    ∀ cmd ∈ x.outbox.added x'.outbox, ∀ id, cmd.Cancels id →
      p.call = .takenBack id ∧ g.call = .cancelled id := by
  have hnone (hadded : x.outbox.added x'.outbox = []) : (x.outbox.added x'.outbox).length ≤ 1 ∧
      ∀ cmd ∈ x.outbox.added x'.outbox, ∀ id, cmd.Cancels id →
        p.call = .takenBack id ∧ g.call = .cancelled id := by
    rw [hadded]
    exact ⟨Nat.zero_le _, nofun⟩
  have hone {cmd : Command} (hadded : x.outbox.added x'.outbox = [cmd])
      (hcmd : ∀ id, cmd.Cancels id → p.call = .takenBack id ∧ g.call = .cancelled id) :
      (x.outbox.added x'.outbox).length ≤ 1 ∧
      ∀ cmd ∈ x.outbox.added x'.outbox, ∀ id, cmd.Cancels id →
        p.call = .takenBack id ∧ g.call = .cancelled id := by
    rw [hadded]
    exact ⟨Nat.le_refl _, fun cmd' hcmd' => List.mem_singleton.1 hcmd' ▸ hcmd⟩
  cases h with
  | rest h => exact hnone h.added
  | number _ _ h => exact hnone (Outbox.Spares.of_eq h).added
  | join | leave | withdraw | takeBack => exact hnone List.drop_length
  | queue _ ho hcmd =>
    exact hone (Outbox.added_takeIn ho) fun id hid => absurd hid (hcmd id)
  | ask ho hcmd =>
    exact hone (Outbox.added_takeIn ho) fun id hid => absurd hid (hcmd id)
  | cancel h =>
    rcases Outbox.added_offer x.outbox _ with hadded | hadded
    · exact hnone hadded
    · refine hone hadded fun id' hid' => ?_
      obtain rfl := Command.eq_of_cancels_ofNotification hid'
      exact ⟨h, rfl⟩

/-- A call that was cancelled stays so. -/
theorem Sends.stays_cancelled (h : Sends p x x' g) (hp : p.call = .cancelled id) :
    g.call = .cancelled id := by
  cases h with
  | number hidle => cases hidle.symm.trans hp
  | ask | withdraw => cases hp
  | takeBack hleft => rcases hleft with hleft | hleft <;> cases hleft.symm.trans hp
  | cancel htaken => cases htaken.symm.trans hp
  | _ => exact hp

end

/-! ### What a run shows of a caller -/

theorem queued_append_singleton (m : Moment (World ε)) :
    queued i (moments ++ [m]) = queued i moments ++ queuedAt i m := by
  simp [queued]

theorem HasPlaced.append_singleton (m : Moment (World ε)) (h : HasPlaced i moments a id) :
    HasPlaced i (moments ++ [m]) a id := by
  rcases h with ⟨cmd, hcmd, hasks⟩ | ⟨m', hm', hactor, hwithdraws⟩
  · rw [HasPlaced, queued_append_singleton]
    exact .inl ⟨cmd, List.mem_append_left _ hcmd, hasks⟩
  · exact .inr ⟨m', List.mem_append_left _ hm', hactor, hwithdraws⟩

theorem HasTakenBack.append_singleton (m : Moment (World ε)) (h : HasTakenBack i moments a id) :
    HasTakenBack i (moments ++ [m]) a id := by
  obtain ⟨earlier, m', later, rfl, hactor, hleaves, hown⟩ := h
  exact ⟨earlier, m', later ++ [m], by simp, hactor, hleaves, hown⟩

/-- The run shows that a caller has come to a phase. -/
def Phase.Shown (i : Nat) (moments : Moments ε) (a : Actor) : Phase → Prop
  | .idle => True
  | .numbered id => (a, id) ∈ numbersTaken i moments
  | .asked id | .withdrawn id =>
    (a, id) ∈ numbersTaken i moments ∧ HasPlaced i moments a id
  | .takenBack id | .cancelled id =>
    (a, id) ∈ numbersTaken i moments ∧ HasPlaced i moments a id ∧ HasTakenBack i moments a id

theorem Phase.Shown.append_singleton {call : Phase} (m : Moment (World ε))
    (h : call.Shown i moments a) : call.Shown i (moments ++ [m]) a := by
  have hnumber {id : Nat} (hid : (a, id) ∈ numbersTaken i moments) :
      (a, id) ∈ numbersTaken i (moments ++ [m]) := by
    rw [numbersTaken_append_singleton]
    exact List.mem_append_left _ hid
  cases call with
  | idle => trivial
  | numbered => exact hnumber h
  | asked | withdrawn => exact ⟨hnumber h.1, h.2.append_singleton m⟩
  | takenBack | cancelled =>
    exact ⟨hnumber h.1, h.2.1.append_singleton m, h.2.2.append_singleton m⟩

/-- A step leads to a phase that the run shows. -/
theorem Sends.shown {p g : Sender} {s s' : World ε}
    (h : Sends p (s.connection i) (s'.connection i) g) (hp : p.call.Shown i moments a)
    (hstands : ∀ t, p.place = .inLine t → t ∈ (s.connection i).outbox.line) :
    g.call.Shown i (moments ++ [⟨a, s, s'⟩]) a := by
  let m : Moment (World ε) := ⟨a, s, s'⟩
  have hmem : m ∈ moments ++ [m] := List.mem_append_right _ (List.mem_singleton_self m)
  generalize hx : s.connection i = x at h hstands
  generalize hx' : s'.connection i = x' at h
  -- only taking a number, queueing, leaving the line and taking back show something new
  cases h with
  | rest | join | queue | leave => exact hp.append_singleton m
  | number _ hcalls =>
    change (a, x.calls.nextId) ∈ numbersTaken i (moments ++ [m])
    have hnew : numberTaken a (callsBefore i m) (callsAfter i m) = [(a, x.calls.nextId)] := by
      rw [callsBefore, callsAfter, hx, hx', hcalls]
      exact numberTaken_eq rfl
    rw [numbersTaken_append_singleton, hnew]
    exact List.mem_append_right _ (List.mem_singleton_self _)
  | @ask _ id t cmd outbox ho _ hasks =>
    have hnumbered : Phase.Shown i (moments ++ [m]) a (.numbered id) := hp.append_singleton m
    refine ⟨hnumbered, .inl ⟨cmd, ?_, hasks⟩⟩
    rw [queued_append_singleton, queuedAt, hx, hx', Outbox.added_takeIn ho]
    exact List.mem_append_right _ (List.mem_singleton_self _)
  | @withdraw _ id t =>
    have hnumbered : Phase.Shown i (moments ++ [m]) a (.numbered id) := hp.append_singleton m
    refine ⟨hnumbered, .inr ⟨m, hmem, rfl, ?_, ?_⟩⟩
    · rw [LeavesLine, hx, hx']
      exact List.length_filter_lt_length_iff_exists.2 ⟨t, hstands t rfl, by simp⟩
    · rw [queuedAt, hx, hx']
      exact List.drop_length
  | @takeBack _ _ id hleft hpending =>
    have hplaced : (a, id) ∈ numbersTaken i moments ∧ HasPlaced i moments a id := by
      rcases hleft with hleft | hleft <;> rw [hleft] at hp <;> exact hp
    refine ⟨?_, hplaced.2.append_singleton m, moments, m, [], rfl, rfl, ⟨?_, ?_⟩, hplaced.1⟩
    · rw [numbersTaken_append_singleton]
      exact List.mem_append_left _ hplaced.1
    · rw [callsBefore, hx]
      exact hpending
    · rw [callsAfter, hx']
      exact Table.get?_erase_self _ _
  | @cancel _ _ id htaken =>
    rw [htaken] at hp
    have hshown : Phase.Shown i (moments ++ [m]) a (.takenBack id) := hp.append_singleton m
    exact hshown

/-! ### What holds all along -/

theorem obeys_orderlyRules (ε : Type) (i : Nat) :
    (orderlyRules ε i).Obeys (sending ε i) (fun _ => .idle) fun _ _ _ => True where
  program _ := sends_request rfl
  serves p hp := by
    cases hp with
    | errorReader errors => exact neutral_parts.errorReader.atRest
    | writer => exact atRest_writer
    | reader => exact atRest_reader
    | shutdown => exact sends_shutdown.once.atRest
    | notify method params hmethod =>
      have hnotify : Program.Follows (sending ε i) (do let _ ← notify i method params) .idle
          fun _ _ => True :=
        (keepsPhase_notify hmethod).bind fun _ _ _ => trivial
      exact hnotify.once.atRest
  outside w w' hinv h := ⟨Nat.lt_of_lt_of_le hinv h.1, .rest (.of_eq h.2.2)⟩

/-- What is true of a run and the senders that its members have become. -/
structure Senders (i : Nat) (moments : Moments ε) (P : Actor → Sender)
    (c : Crew (World ε) Ask Outcome) : Prop where
  staged : Staged (sending ε i) (fun _ _ _ => True) P c
  tickets : Tickets P (c.state.connection i).outbox
  shown : ∀ a, (P a).call.Shown i moments a
  short : ∀ m ∈ moments, (queuedAt i m).length ≤ 1
  cancelled : ∀ m ∈ moments, ∀ cmd ∈ queuedAt i m, ∀ id, cmd.Cancels id →
    (P m.actor).call = .cancelled id

variable {P : Actor → Sender}

theorem senders_nil (hi : i < w.connections.length) :
    Senders i [] (fun _ => .idle) (Crew.ofState w : Crew (World ε) Ask Outcome) where
  staged := staged_ofState hi
  tickets := ⟨nofun, nofun, nofun⟩
  shown _ := trivial
  short := nofun
  cancelled := nofun

theorem Senders.sends {g : Sender} (h : Senders i moments P c)
    (hs : Sends (P a) (c.state.connection i) (c'.state.connection i) g)
    (hstaged : Staged (sending ε i) (fun _ _ _ => True) (Function.update P a g) c') :
    Senders i (moments ++ [⟨a, c.state, c'.state⟩]) (Function.update P a g) c' := by
  refine ⟨hstaged, h.tickets.sends hs, fun b => ?_, fun m hm => ?_, fun m hm cmd hcmd id hid => ?_⟩
  · by_cases hb : b = a
    · subst hb
      rw [Function.update_self]
      exact hs.shown (h.shown b) (h.tickets.stands b)
    · rw [Function.update_of_ne hb]
      exact (h.shown b).append_singleton _
  · rcases List.mem_append.1 hm with hm | hm
    · exact h.short m hm
    · obtain rfl := List.mem_singleton.1 hm
      exact hs.added.1
  · rcases List.mem_append.1 hm with hm | hm
    · have hover := h.cancelled m hm cmd hcmd id hid
      by_cases ha : m.actor = a
      · rw [ha, Function.update_self]
        exact hs.stays_cancelled (ha ▸ hover)
      · rwa [Function.update_of_ne ha]
    · obtain rfl := List.mem_singleton.1 hm
      rw [Function.update_self]
      exact (hs.added.2 cmd hcmd id hid).2

theorem sends_of_move (h : Senders i moments P c) (hmove : Move (orderlyRules ε i) c a c') :
    ∃ g, Sends (P a) (c.state.connection i) (c'.state.connection i) g ∧
      Staged (sending ε i) (fun _ _ _ => True) (Function.update P a g) c' := by
  obtain ⟨g, hacts, hstaged⟩ :=
    hmove.staged_acts (obeys_orderlyRules ε i) (fun _ _ _ _ h => h) h.staged
  exact ⟨g, hacts.2, hstaged⟩

theorem exists_senders (hi : i < w.connections.length)
    (run : Run (orderlyRules ε i) (Crew.ofState w) moments c) : ∃ P, Senders i moments P c := by
  induction run with
  | nil => exact ⟨_, senders_nil hi⟩
  | move run hmove ih =>
    obtain ⟨P, h⟩ := ih
    obtain ⟨g, hs, hstaged⟩ := sends_of_move h hmove
    exact ⟨_, h.sends hs hstaged⟩

/-- Who cancels a call at a moment has taken it back before, and has not cancelled it yet. -/
theorem exists_takenBack (hi : i < w.connections.length)
    (run : Run (orderlyRules ε i) (Crew.ofState w) (earlier ++ m :: later) c) {cmd : Command}
    (hcmd : cmd ∈ queuedAt i m) (hid : cmd.Cancels id) :
    ∃ P c₁, Run (orderlyRules ε i) (Crew.ofState w) earlier c₁ ∧ Senders i earlier P c₁ ∧
      (P m.actor).call = .takenBack id := by
  obtain ⟨a, c₁, c₂, rfl, hearlier, hmove, -⟩ := run.split
  obtain ⟨P, h⟩ := exists_senders hi hearlier
  obtain ⟨g, hs, -⟩ := sends_of_move h hmove
  exact ⟨P, c₁, hearlier, h, (hs.added.2 cmd hcmd id hid).1⟩

/-- What was queued last of some commands was queued at a moment, and what was queued before that
moment is among those before. -/
theorem exists_moment {cmds cmds' : List Command} {cmd : Command}
    (h : queued i moments = cmds ++ cmd :: cmds') : ∃ earlier m later,
      moments = earlier ++ m :: later ∧ cmd ∈ queuedAt i m ∧ queued i earlier <+: cmds := by
  induction moments generalizing cmds with
  | nil => simp [queued] at h
  | cons m moments ih =>
    have hgo (rest : List Command) (hrest : queued i moments = rest ++ cmd :: cmds')
        (hcmds : cmds = queuedAt i m ++ rest) : ∃ earlier m' later,
          m :: moments = earlier ++ m' :: later ∧ cmd ∈ queuedAt i m' ∧
            queued i earlier <+: cmds := by
      obtain ⟨earlier, m', later, rfl, hmem, hbefore⟩ := ih hrest
      refine ⟨m :: earlier, m', later, rfl, hmem, ?_⟩
      rw [hcmds]
      exact (List.prefix_append_right_inj _).2 hbefore
    rw [show queued i (m :: moments) = queuedAt i m ++ queued i moments from
      List.flatMap_cons] at h
    rcases List.append_eq_append_iff.1 h with ⟨rest, hcmds, hrest⟩ | ⟨mid, hm, hmid⟩
    · exact hgo rest hrest hcmds
    · cases mid with
      | nil => exact hgo [] hmid.symm (by rw [hm, List.append_nil, List.append_nil])
      | cons x mid =>
        obtain ⟨rfl, -⟩ := List.cons.inj hmid
        refine ⟨[], m, moments, rfl, ?_, List.nil_prefix⟩
        rw [hm]
        exact List.mem_append_right _ (List.mem_cons_self ..)

/-- No two actors have one number. -/
theorem taker_unique {server : String} (hi : i < w.connections.length)
    (hcalls : (w.connection i).calls = ofServer server)
    (run : Run (rules ε i) (Crew.ofState w) moments c)
    (hfew : (numbersTaken i moments).length ≤ numbers) {b : Actor}
    (ha : (a, id) ∈ numbersTaken i moments) (hb : (b, id) ∈ numbersTaken i moments) : a = b := by
  obtain ⟨P, h⟩ := exists_account hi hcalls run hfew
  exact h.sound.caller_unique hfew ((h.sound.mem_taken a id).1 ha) ((h.sound.mem_taken b id).1 hb)

/-- A call that was cancelled is not cancelled again. -/
theorem not_cancels_again {server : String} (hi : i < w.connections.length)
    (hcalls : (w.connection i).calls = ofServer server)
    (run : Run (orderlyRules ε i) (Crew.ofState w) (earlier ++ m :: later) c)
    (hfew : (numbersTaken i (earlier ++ m :: later)).length ≤ numbers)
    {m' : Moment (World ε)} (hm' : m' ∈ earlier) {cmd cmd' : Command} (hcmd' : cmd' ∈ queuedAt i m')
    (hid' : cmd'.Cancels id) (hcmd : cmd ∈ queuedAt i m) : ¬ cmd.Cancels id := by
  intro hid
  obtain ⟨P, c₁, hearlier, h, htaken⟩ := exists_takenBack hi run hcmd hid
  have hover := h.cancelled m' hm' cmd' hcmd' id hid'
  have hshown := h.shown m.actor
  have hshown' := h.shown m'.actor
  rw [htaken] at hshown
  rw [hover] at hshown'
  have hactor : m.actor = m'.actor :=
    taker_unique hi hcalls (run_rules hearlier)
      (Nat.le_trans (length_numbersTaken_le ..) hfew) hshown.1 hshown'.1
  rw [hactor, hover] at htaken
  cases htaken

/-- Cancellations come after what they cancel, once, and for nothing that is completed, however the
programs of a connection and everything else move. -/
theorem cancelled_in_order {server : String} (hi : i < w.connections.length)
    (hcalls : (w.connection i).calls = ofServer server)
    (run : Run (orderlyRules ε i) (Crew.ofState w) moments c)
    (hfew : (numbersTaken i moments).length < numbers) : CancelledInOrder i moments := by
  obtain ⟨P, h⟩ := exists_senders hi run
  have hpreceded (earlier : Moments ε) (m : Moment (World ε)) (later : Moments ε)
      (heq : moments = earlier ++ m :: later) (cmd : Command) (hcmd : cmd ∈ queuedAt i m) (id : Nat)
      (hid : cmd.Cancels id) :
      (m.actor, id) ∈ numbersTaken i earlier ∧ HasPlaced i earlier m.actor id := by
    subst heq
    obtain ⟨P, c₁, -, h, htaken⟩ := exists_takenBack hi run hcmd hid
    have hshown := h.shown m.actor
    rw [htaken] at hshown
    exact ⟨hshown.1, hshown.2.1⟩
  refine ⟨hpreceded, fun hnobody cmds cmd cmds' heq id hid => ?_, ?_,
    fun m hm id hcompletes cmd hcmd hid => ?_⟩
  · obtain ⟨earlier, m, later, rfl, hcmd, hbefore⟩ := exists_moment heq
    obtain ⟨-, ⟨cmd', hcmd', hasks⟩ | ⟨m', hm', -, hwithdraws⟩⟩ :=
      hpreceded earlier m later rfl cmd hcmd id hid
    · exact ⟨cmd', hbefore.subset hcmd', hasks⟩
    · exact absurd hwithdraws (hnobody m' (List.mem_append_left _ hm'))
  -- one moment queues at most one command, and of two moments the later cannot cancel again
  · refine List.pairwise_flatMap.2 ⟨fun m hm => ?_, ?_⟩
    · have hshort := h.short m hm
      exact List.pairwise_iff_getElem.2 fun j k hj hk hjk => by omega
    · refine List.pairwise_iff_getElem.2 fun j k hj hk hjk cmd' hcmd' cmd hcmd id hid' => ?_
      have hsplit : moments = moments.take k ++ moments[k] :: moments.drop (k + 1) := by
        rw [← List.drop_eq_getElem_cons, List.take_append_drop]
      have hmem : moments[j] ∈ moments.take k := List.mem_take_iff_getElem.2 ⟨j, by omega, rfl⟩
      exact not_cancels_again hi hcalls (hsplit ▸ run) (hsplit ▸ Nat.le_of_lt hfew) hmem hcmd' hid'
        hcmd
  · obtain ⟨m', hm', hcmd⟩ := List.mem_flatMap.1 hcmd
    have hshown := h.shown m'.actor
    rw [h.cancelled m' hm' cmd hcmd id hid] at hshown
    obtain ⟨-, -, earlier, m'', later, rfl, hactor, hleaves, hown⟩ := hshown
    exact not_completes_of_leaves hi hcalls (run_rules run) (Nat.le_of_lt hfew) hleaves
      (hactor ▸ hown) m hm hcompletes

/-! ### Runs -/

theorem outside_cancel (n : Nat) (w : World Unit) :
    (orderlyRules Unit 0).Outside w (w.cancel n) := ⟨Nat.le_refl _, rfl, rfl⟩

/-- A request, of which so many steps are made before it is cancelled. -/
def cancelledAfter (steps : Nat) : List (Choice (orderlyRules Unit 0)) :=
  [.enter ⟨"hover", none, [0], none⟩] ++ List.replicate steps (.client 0) ++
  [.outside (World.cancel 0) (outside_cancel 0)] ++ List.replicate 4 (.client 0)

/-- The moments of a request that is cancelled after so many steps. -/
def momentsUntilCancelled (steps : Nat) : Moments Unit :=
  (play (cancelledAfter steps) ([], Crew.ofState alone)).1

def hoverRequest : Json := Message.ofRequest 1 "hover" none

def hoverCancelled : Command :=
  .send (Message.ofNotification Method.cancelRequest (some (Params.cancel 1))) none

theorem cancelled_in_order_afterRequest :
    queued 0 (momentsUntilCancelled 9) = [.send hoverRequest (some 0), hoverCancelled] ∧
      CancelledInOrder 0 (momentsUntilCancelled 9) := by
  have htaken : numbersTaken 0 (momentsUntilCancelled 9) = [(.client 0, 1)] := by rfl
  have hcalls : (alone.connection 0).calls = ofServer "server" := rfl
  have hfew : [((.client 0 : Actor), 1)].length < numbers := by decide
  refine ⟨by rfl, ?_⟩
  exact cancelled_in_order (show 0 < alone.connections.length from Nat.zero_lt_one) hcalls
    (run_play (cancelledAfter 9) .nil) (htaken ▸ hfew)

/-- A request is cancelled while it stands in line, and the server is told to cancel what it was
not asked. -/
theorem withdrawn_cancelled :
    Run (orderlyRules Unit 0) (Crew.ofState alone) (momentsUntilCancelled 8)
      (play (cancelledAfter 8) ([], Crew.ofState alone)).2 ∧
    queued 0 (momentsUntilCancelled 8) = [hoverCancelled] ∧
    ¬ RequestsFirst (queued 0 (momentsUntilCancelled 8)) := by
  have hqueued : queued 0 (momentsUntilCancelled 8) = [hoverCancelled] := by rfl
  refine ⟨run_play (cancelledAfter 8) .nil, hqueued, fun hfirst => ?_⟩
  have hcancels : hoverCancelled.Cancels 1 :=
    ⟨_, _, _, rfl, Message.classify_ofNotification _ _, by rfl⟩
  obtain ⟨cmd, hcmd, -⟩ := hfirst [] hoverCancelled [] hqueued 1 hcancels
  cases hcmd

end LspClient.Connection
