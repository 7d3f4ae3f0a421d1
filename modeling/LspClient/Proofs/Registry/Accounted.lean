import LspClient.Proofs.Registry.Booking

/-!
# Every run has an account

The account of a registry goes on when a caller enters (`Account.enters`), and when it hands the
creation that it has claimed over to a service (`Account.hands`), which then owns the generation. A
run begins with an empty account and goes on by such moves and by actions, so there is one of every
run (`exists_accounted`).
-/

namespace LspClient.Registry

open Program Crew

variable {ε : Type} {connect : Connector ε} {w : World ε} {g : Nat} {moments : Moments ε}
  {c c' : Crew (World ε) Ask Outcome} {a : Actor} {x : Ask} {P P' : Actor → Stage}

/-! ### Entering and handing over -/

namespace Account

/-- The account goes on when a caller enters. -/
theorem enters {n : Nat} (h : Account connect P moments c)
    (hidle : P (.client n) = ⟨none, .none, []⟩) (hasks : Asks c n x) :
    Account connect (Function.update P (.client n) (begins x)) moments c := by
  -- the client that enters has no role yet and has opened nothing
  have hrole (b : Actor) : (Function.update P (.client n) (begins x) b).role = (P b).role :=
    update_eq Stage.role (by rw [hidle]; rfl) b
  have hopened (b : Actor) :
      (Function.update P (.client n) (begins x) b).opened = (P b).opened :=
    update_eq Stage.opened (by rw [hidle]; rfl) b
  have hask {b : Actor} {y : Ask}
      (hb : (Function.update P (.client n) (begins x) b).ask = some y) :
      (P b).ask = some y ∨ b = .client n ∧ y = x := by
    rcases of_update (fun st : Stage => st.ask = some y) hb with ⟨rfl, hx⟩ | ⟨-, hb⟩
    · cases hx
      exact .inr ⟨rfl, rfl⟩
    · exact .inl hb
  have hstays {b : Actor} {y : Ask} (hb : (P b).ask = some y) :
      (Function.update P (.client n) (begins x) b).ask = some y := by
    rw [Function.update_of_ne, hb]
    rintro rfl
    rw [hidle] at hb
    cases hb
  have hordered {w : World ε} (hw : Ordered P moments w) :
      Ordered (Function.update P (.client n) (begins x)) moments w :=
    hw.mono (List.Subset.refl _) (fun b y g hb hg => ⟨b, hstays hb, by rw [hrole, hg]⟩)
      fun b _ => by rw [hrole]
  constructor
  case asker =>
    intro b y hb
    rw [hrole]
    rcases hask hb with hb | ⟨rfl, rfl⟩
    · exact h.asker b y hb
    · exact .inl ⟨n, rfl, hasks, by rw [hidle]; rfl⟩
  case roleless =>
    intro b hb
    rw [hrole]
    refine h.roleless b (Option.eq_none_iff_forall_ne_some.2 fun y hy => ?_)
    cases (hstays hy).symm.trans hb
  case past =>
    intro b y hb
    rw [hrole]
    rcases hask hb with hb | ⟨rfl, rfl⟩
    · exact h.past b y hb
    · rw [hidle]
      trivial
  case acted => exact h.acted
  case ordered => exact hordered h.ordered
  case orderedPast =>
    exact fun m hm => ⟨hordered (h.orderedPast m hm).1, hordered (h.orderedPast m hm).2⟩
  case stored =>
    simp only [hrole]
    exact h.stored
  case failed =>
    simp only [hrole]
    exact h.failed
  case opened =>
    simp only [hopened]
    exact h.opened
  case starting =>
    simp only [SeenTo, hrole]
    exact h.starting
  case outcome_lt => exact h.outcome_lt
  case opened_lt => exact h.opened_lt
  case opener_unique => exact h.opener_unique
  case claimed => exact h.claimed
  all_goals simp only [hrole]
  case owner_unique => exact h.owner_unique
  case owner_lt => exact h.owner_lt
  case untold => exact h.untold
  case unstored => exact h.unstored
  case opener => exact h.opener
  case told => exact h.told

end Account

/-- A caller hands the creation that it has claimed over to a service. -/
structure HandsOver (P P' : Actor → Stage) (k n : Nat) (x : Ask) (g : Nat) : Prop where
  claimed : P (.client k) = ⟨some x, .claimed g, []⟩
  idle : P (.service n) = ⟨none, .none, []⟩
  waits : P' (.client k) = ⟨some x, .waits g, []⟩
  creates : P' (.service n) = ⟨some x, .creates g, []⟩
  others : ∀ b, b ≠ .client k → b ≠ .service n → P' b = P b

theorem handsOver_update {k n : Nat} (hclaimed : P (.client k) = ⟨some x, .claimed g, []⟩)
    (hidle : P (.service n) = ⟨none, .none, []⟩) :
    HandsOver P (Function.update (Function.update P (.client k) ⟨some x, .waits g, []⟩)
      (.service n) ⟨some x, .creates g, []⟩) k n x g where
  claimed := hclaimed
  idle := hidle
  waits := by rw [Function.update_of_ne (by simp), Function.update_self]
  creates := by rw [Function.update_self]
  others b hk hn := by rw [Function.update_of_ne hn, Function.update_of_ne hk]

namespace HandsOver

variable {k n : Nat} (h : HandsOver P P' k n x g)

include h

theorem cases (b : Actor) : P' b = P b ∨ b = .client k ∨ b = .service n := by
  by_cases hk : b = .client k
  · exact .inr (.inl hk)
  · by_cases hn : b = .service n
    · exact .inr (.inr hn)
    · exact .inl (h.others b hk hn)

/-- Those who have begun a creation go on as they were. -/
theorem created {b : Actor} (hb : (P b).role.created? ≠ none) : P' b = P b := by
  refine h.others b ?_ ?_
  · rintro rfl
    rw [h.claimed] at hb
    exact hb rfl
  · rintro rfl
    rw [h.idle] at hb
    exact hb rfl

theorem owner : (P (.client k)).role.owned? = some g := by
  rw [h.claimed]
  rfl

/-- What was owned by the caller is owned by the service, all else as before. -/
theorem owned {b : Actor} {g' : Nat} (hb : (P' b).role.owned? = some g') :
    (b ≠ .client k ∧ P' b = P b ∧ (P b).role.owned? = some g') ∨ b = .service n ∧ g' = g := by
  rcases h.cases b with heq | rfl | rfl
  · refine .inl ⟨?_, heq, heq ▸ hb⟩
    rintro rfl
    rw [h.waits] at hb
    cases hb
  · rw [h.waits] at hb
    cases hb
  · rw [h.creates] at hb
    cases hb
    exact .inr ⟨rfl, rfl⟩

theorem owner_unique (hunique : ∀ b b' g', (P b).role.owned? = some g' →
      (P b').role.owned? = some g' → b = b') (b b' : Actor) (g' : Nat)
    (hb : (P' b).role.owned? = some g') (hb' : (P' b').role.owned? = some g') : b = b' := by
  rcases h.owned hb with ⟨hk, -, hb⟩ | ⟨rfl, rfl⟩ <;>
    rcases h.owned hb' with ⟨hk', -, hb'⟩ | ⟨rfl, hg⟩
  · exact hunique b b' g' hb hb'
  · subst hg
    exact absurd (hunique b (.client k) g' hb h.owner) hk
  · exact absurd (hunique b' (.client k) g' hb' h.owner) hk'
  · rfl

/-- Who owns a generation now, under the same key as before. -/
theorem owned_of_owned {b : Actor} {y : Ask} {g' : Nat} (hb : (P b).ask = some y)
    (hg : (P b).role.owned? = some g') :
    ∃ b', (P' b').ask = some y ∧ (P' b').role.owned? = some g' := by
  rcases h.cases b with heq | rfl | rfl
  · exact ⟨b, by rw [heq, hb], by rw [heq, hg]⟩
  · rw [h.claimed] at hb hg
    cases hb
    cases hg
    exact ⟨.service n, by rw [h.creates], by rw [h.creates]; rfl⟩
  · rw [h.idle] at hb
    cases hb

theorem unkept {b : Actor} {g' : Nat} (hb : (P' b).role.unkept? = some g') :
    ∃ b', (P b').role.unkept? = some g' := by
  rcases h.cases b with heq | rfl | rfl
  · exact ⟨b, heq ▸ hb⟩
  · rw [h.waits] at hb
    cases hb
  · rw [h.creates] at hb
    refine ⟨.client k, ?_⟩
    rw [h.claimed]
    exact hb

theorem seenTo {g' : Nat} (hg : SeenTo P g') : SeenTo P' g' := by
  obtain ⟨b, hb⟩ := hg
  by_cases hk : b = .client k
  · subst hk
    rw [h.claimed] at hb
    rcases hb with hb | hb
    · cases hb
      exact ⟨.service n, .inr (by rw [h.creates])⟩
    · cases hb
  · by_cases hn : b = .service n
    · subst hn
      rw [h.idle] at hb
      rcases hb with hb | hb <;> cases hb
    · exact ⟨b, by rwa [h.others b hk hn]⟩

theorem of_ends {b : Actor} {g' : Nat} {r : Outcome} (hb : (P' b).role = .ends g' r) :
    (P b).role = .ends g' r := by
  rcases h.cases b with heq | rfl | rfl
  · exact heq ▸ hb
  · rw [h.waits] at hb
    cases hb
  · rw [h.creates] at hb
    cases hb

end HandsOver

namespace Account

/-- The account goes on when a creation is handed over. -/
theorem hands {k n : Nat} {p : Program (World ε) Bool} (h : Account connect P moments c)
    (hhands : HandsOver P P' k n x g)
    (hnew : c.services[n]? = some (creation connect x g, p)) :
    Account connect P' moments c := by
  -- what the client has claimed is split: it waits from now on, and the service creates
  obtain ⟨k', hk', hasks⟩ := (h.asker (.client k) x (by rw [hhands.claimed])).client
    (by rw [hhands.claimed]; rfl)
  obtain rfl := Actor.client.inj hk'
  have hclaim := h.past (.client k) x (by rw [hhands.claimed])
  rw [hhands.claimed] at hclaim
  obtain ⟨m, hm, hactor, hclaims⟩ := hclaim
  have hordered {w : World ε} (hw : Ordered P moments w) : Ordered P' moments w :=
    hw.mono (List.Subset.refl _) (fun b y g hb hg => hhands.owned_of_owned hb hg)
      fun b hb => by rw [hhands.created hb]
  constructor
  case asker =>
    intro b y hb
    rcases hhands.cases b with heq | rfl | rfl
    · rw [heq] at hb ⊢
      exact h.asker b y hb
    · rw [hhands.waits] at hb ⊢
      cases hb
      exact .inl ⟨k, rfl, hasks, rfl⟩
    · rw [hhands.creates] at hb ⊢
      cases hb
      exact .inr ⟨n, g, p, rfl, rfl, hnew⟩
  case roleless =>
    intro b hb
    rcases hhands.cases b with heq | rfl | rfl
    · rw [heq] at hb ⊢
      exact h.roleless b hb
    · rw [hhands.waits] at hb
      cases hb
    · rw [hhands.creates] at hb
      cases hb
  case past =>
    intro b y hb
    rcases hhands.cases b with heq | rfl | rfl
    · rw [heq] at hb ⊢
      exact h.past b y hb
    · rw [hhands.waits] at hb ⊢
      cases hb
      exact ⟨m, hm, hactor, .inr hclaims⟩
    · rw [hhands.creates] at hb ⊢
      cases hb
      exact ⟨m, hm, k, hactor, hasks, hclaims⟩
  case owner_unique => exact hhands.owner_unique h.owner_unique
  case owner_lt =>
    intro b g' hb
    rcases hhands.owned hb with ⟨-, -, hb⟩ | ⟨rfl, rfl⟩
    · exact h.owner_lt b g' hb
    · exact h.owner_lt _ _ hhands.owner
  case acted => exact h.acted
  case ordered => exact hordered h.ordered
  case orderedPast =>
    exact fun m hm => ⟨hordered (h.orderedPast m hm).1, hordered (h.orderedPast m hm).2⟩
  case untold =>
    intro b g' hb hrole
    rcases hhands.owned hb with ⟨-, heq, hb⟩ | ⟨rfl, rfl⟩
    · exact h.untold b g' hb (heq ▸ hrole)
    · exact h.untold _ _ hhands.owner (by rw [hhands.claimed]; nofun)
  case outcome_lt => exact h.outcome_lt
  case stored =>
    rintro g' i (hi | ⟨b, hb⟩)
    · exact h.stored g' i (.inl hi)
    · exact h.stored g' i (.inr ⟨b, hhands.of_ends hb⟩)
  case unstored =>
    intro b g' hb
    obtain ⟨b', hb'⟩ := hhands.unkept hb
    exact h.unstored b' g' hb'
  case starting =>
    exact fun key g' name fileTypes hs =>
      (h.starting key g' name fileTypes hs).imp_left hhands.seenTo
  case failed =>
    rintro g' e (he | ⟨b, hb⟩)
    · exact h.failed g' e (.inl he)
    · exact h.failed g' e (.inr ⟨b, hhands.of_ends hb⟩)
  case opened_lt => exact h.opened_lt
  case opener_unique => exact h.opener_unique
  case opened =>
    intro b i hi
    rcases hhands.cases b with heq | rfl | rfl
    · exact h.opened b i (heq ▸ hi)
    · rw [hhands.waits] at hi
      cases hi
    · rw [hhands.creates] at hi
      cases hi
  case opener =>
    intro b i hb
    have hne := h.opener b i hb
    rwa [hhands.created hne]
  case claimed => exact h.claimed
  case told =>
    intro m hm g' hne
    obtain ⟨hnone, htold⟩ := h.told m hm g' hne
    exact ⟨hnone, by rw [hhands.created (by rw [htold]; nofun), htold]⟩

end Account

/-! ### From the start on -/

theorem ordered_of_empty {P : Actor → Stage} {moments : Moments ε}
    (hw : w.registry = Registry.empty) : Ordered P moments w := by
  have hnone (key : ConnectionKey) : w.registry.slot? key = none := by
    rw [hw]
    rfl
  constructor
  case filed =>
    intro key s hs
    cases (hnone key).symm.trans hs
  case kept =>
    intro key g name i hs
    cases (hnone key).symm.trans hs

theorem account_start (connect : Connector ε) (hw : w.registry = Registry.empty) :
    Account connect (fun _ => ⟨none, .none, []⟩) [] (Crew.ofState w) where
  asker := nofun
  roleless _ _ := rfl
  past := nofun
  owner_unique := nofun
  owner_lt := nofun
  acted := nofun
  ordered := ordered_of_empty hw
  orderedPast := nofun
  untold := nofun
  outcome_lt g r hr := by
    change w.registry.outcomes.get? g = some r at hr
    rw [hw] at hr
    cases hr
  stored g i hok := by
    rcases hok with hok | ⟨a, ha⟩
    · change w.registry.outcomes.get? g = some (.ok i) at hok
      rw [hw] at hok
      cases hok
    · cases ha
  unstored := nofun
  starting key g name fileTypes hs := by
    change w.registry.slot? key = _ at hs
    rw [hw] at hs
    cases hs
  failed g e he := by
    rcases he with he | ⟨a, ha⟩
    · change w.registry.outcomes.get? g = some (.error e) at he
      rw [hw] at he
      cases he
    · cases ha
  opened_lt := nofun
  opener_unique := nofun
  opened := nofun
  opener := nofun
  claimed := nofun
  told := nofun

/-- An account of a crew whose members stand at the stages it is about. -/
structure Accounted (connect : Connector ε) (P : Actor → Stage) (moments : Moments ε)
    (c : Crew (World ε) Ask Outcome) : Prop extends Account connect P moments c where
  staged : Staged (discipline connect) Ended P c
  asked : ∀ k x, Asks c k x → (P (.client k)).ask = some x

theorem accounted_start (connect : Connector ε) (hw : w.registry = Registry.empty) :
    Accounted connect (fun _ => ⟨none, .none, []⟩) [] (Crew.ofState w) where
  toAccount := account_start connect hw
  staged := by
    refine staged_ofState ?_
    change Distinct w.registry
    rw [hw]
    exact distinct_empty
  asked k x h := by
    obtain ⟨p, hp⟩ := h
    simp [Crew.ofState] at hp

/-- Nothing changes in an account when the state does not. -/
theorem Account.still (h : Account connect P moments c) (hmove : Move (rules connect) c a c')
    (hs : c'.state = c.state) :
    Account connect P (moments ++ [⟨a, c.state, c'.state⟩]) c' := by
  have hacts : Acts c.state c'.state (P a) (P a) := by
    rw [hs]
    exact .trim (.refl _) rfl
  have hstill := h.acts hacts hmove
  rwa [Function.update_eq_self] at hstill

/-- Who asks after somebody has entered, asked before or is the one who has entered. -/
theorem Asks.of_enters {k : Nat} {y : Ask} {p : Program (World ε) Outcome}
    (hasks : Asks c' k x) (hc : c'.clients = c.clients ++ [(y, p)]) :
    (k < c.clients.length ∧ Asks c k x) ∨ k = c.clients.length ∧ x = y := by
  obtain ⟨q, hq⟩ := hasks
  rw [hc] at hq
  rcases Nat.lt_or_ge k c.clients.length with hlt | hge
  · rw [List.getElem?_append_left hlt] at hq
    exact .inl ⟨hlt, q, hq⟩
  · rw [List.getElem?_append_right hge] at hq
    obtain ⟨hlt, heq⟩ := List.getElem?_eq_some_iff.1 hq
    rw [List.length_singleton] at hlt
    obtain rfl : k = c.clients.length := by omega
    simp only [Nat.sub_self, List.getElem_cons_zero] at heq
    cases heq
    exact .inr ⟨rfl, rfl⟩

theorem asks_of_enters {y : Ask} {p : Program (World ε) Outcome}
    (hc : c'.clients = c.clients ++ [(y, p)]) : Asks c' c.clients.length y := by
  refine ⟨p, ?_⟩
  rw [hc, List.getElem?_append_right (Nat.le_refl _), Nat.sub_self]
  rfl

theorem Asks.of_noneEnters {k : Nat} (hasks : Asks c' k x) (hnone : NoneEnters c c') :
    Asks c k x :=
  let ⟨p, hp⟩ := hasks
  hnone k x p hp

theorem Accounted.move (hconnect : Lawful connect) (h : Accounted connect P moments c)
    (hmove : Move (rules connect) c a c') :
    ∃ P', Accounted connect P' (moments ++ [⟨a, c.state, c'.state⟩]) c' := by
  obtain ⟨P', hgoes, hstaged⟩ := hmove.staged (obeys_rules hconnect) h.staged
  cases hgoes with
  | acts hacts hnone =>
    refine ⟨_, h.toAccount.acts hacts hmove, hstaged, fun k x hasks => ?_⟩
    rw [update_eq Stage.ask hacts.ask]
    exact h.asked k x (hasks.of_noneEnters hnone)
  | enters hs hc =>
    have hidle := h.staged.clients.idle _ (Nat.le_refl _)
    refine ⟨_, (h.toAccount.still hmove hs).enters hidle (asks_of_enters hc), hstaged,
      fun k x hasks => ?_⟩
    rcases hasks.of_enters hc with ⟨hlt, hasks⟩ | ⟨rfl, rfl⟩
    · rw [Function.update_of_ne (fun heq => Nat.ne_of_lt hlt (Actor.client.inj heq))]
      exact h.asked k x hasks
    · rw [Function.update_self]
      rfl
  | hands hs hhands hnone hnew =>
    obtain ⟨y, g, hclaimed, rfl, rfl, rfl⟩ := hhands
    obtain ⟨j, rfl, -⟩ := (h.asker a y (by rw [hclaimed])).client (by rw [hclaimed]; rfl)
    have hidle := h.staged.services.idle _ (Nat.le_refl _)
    refine ⟨_, (h.toAccount.still hmove hs).hands (handsOver_update hclaimed hidle) hnew,
      hstaged, fun k x hasks => ?_⟩
    rw [Function.update_of_ne (by simp), update_eq Stage.ask (by rw [hclaimed])]
    exact h.asked k x (hasks.of_noneEnters hnone)

/-- Of every run there is an account. -/
theorem exists_accounted (hconnect : Lawful connect) (hw : w.registry = Registry.empty)
    (run : Run (rules connect) (Crew.ofState w) moments c) :
    ∃ P, Accounted connect P moments c := by
  induction run with
  | nil => exact ⟨_, accounted_start connect hw⟩
  | move run hmove ih =>
    obtain ⟨P, h⟩ := ih
    exact h.move hconnect hmove

end LspClient.Registry
