import LspClient.Proofs.Registry.Account

/-!
# Actions are booked

The account of a registry goes on with every action of one of the parties (`Account.acts`). Part by
part it is said what the action leaves of it: a generation that is owned was owned before, or was
just claimed (`owned_update`), and one that is not current under its owner's key has no slot
(`absent_of_not_isCurrent`).
-/

namespace LspClient.Registry

open Program Crew

variable {ε : Type} {connect : Connector ε} {st' : Stage} {g : Nat} {key : ConnectionKey}
  {moments moments' : Moments ε} {c c' : Crew (World ε) Ask Outcome} {a : Actor} {x : Ask}
  {P : Actor → Stage}

namespace Account

section

variable (h : Account connect P moments c)

include h

theorem outcomes_mono (hacts : Acts c.state c'.state (P a) st') (g : Nat) (r : Outcome)
    (hr : c.state.registry.outcomes.get? g = some r) :
    c'.state.registry.outcomes.get? g = some r := by
  rcases hacts.outcomes with heq | ⟨x, g', r', opened, hbefore, -, heq⟩
  · rw [heq, hr]
  · have hne : g' ≠ g := by
      rintro rfl
      have hnone := h.untold a g' (by rw [hbefore]; rfl) (by rw [hbefore]; nofun)
      cases hr.symm.trans hnone
    rw [heq, Table.get?_put_ne _ _ hne, hr]

theorem lasts (hacts : Acts c.state c'.state (P a) st')
    (hmove : Move (rules connect) c a c') :
    Lasts moments (moments ++ [⟨a, c.state, c'.state⟩]) c c' :=
  ⟨List.subset_append_left _ _, fun _ _ hasks => hasks.move hmove, hacts.isShutDown,
    h.outcomes_mono hacts⟩

theorem past_acts (hacts : Acts c.state c'.state (P a) st')
    (hmove : Move (rules connect) c a c') (hask : (P a).ask = some x) :
    Past (moments ++ [⟨a, c.state, c'.state⟩]) c' a x st'.role := by
  have hlasts := h.lasts hacts hmove
  have hpast := Past.mono hlasts (h.past a x hask)
  have hlast : (⟨a, c.state, c'.state⟩ : Moment (World ε)) ∈
      moments ++ [⟨a, c.state, c'.state⟩] :=
    List.mem_append_right _ (List.mem_singleton_self _)
  generalize hst : P a = st at hacts hask hpast
  cases hacts with
  | trim => exact hpast
  | opens => exact hpast
  | refuse hdown => exact hlasts.isShutDown hdown
  | find hslot halive =>
    cases hask
    exact ⟨_, hlast, rfl, _, _, hslot, halive⟩
  | join hslot =>
    cases hask
    exact ⟨_, hlast, rfl, .inl ⟨_, _, hslot⟩⟩
  | claim hclaims =>
    cases hask
    exact ⟨_, hlast, rfl, hclaims⟩
  | hear hr => exact ⟨hpast, hlasts.outcomes _ _ hr⟩
  | leave he =>
    cases hask
    exact ⟨hpast, _, hlast, rfl, he⟩
  | keep => exact hpast
  | fail => exact hpast
  | tell => exact hpast

end

/-- A generation that is owned was owned before, or was just claimed. -/
theorem owned_update (hacts : Acts c.state c'.state (P a) st') {b : Actor}
    (hb : (Function.update P a st' b).role.owned? = some g) :
    (P b).role.owned? = some g ∨ b = a ∧ ∃ x, ClaimsAs c.state c'.state (P a) st' x g := by
  rcases of_update (fun st : Stage => st.role.owned? = some g) hb with ⟨rfl, hnew⟩ | ⟨-, hb⟩
  · rcases hacts.owned? with heq | ⟨x, g', hclaims⟩
    · exact .inl (heq ▸ hnew)
    · rw [hclaims.after] at hnew
      cases hnew
      exact .inr ⟨rfl, x, hclaims⟩
  · exact .inl hb

theorem owned_mono (hacts : Acts c.state c'.state (P a) st') {b : Actor}
    (hb : (P b).role.owned? = some g) :
    (Function.update P a st' b).role.owned? = some g := by
  by_cases hba : b = a
  · subst hba
    rw [Function.update_self]
    rcases hacts.owned? with heq | ⟨x, g', hclaims⟩
    · rw [heq, hb]
    · rw [hclaims.before] at hb
      cases hb
  · rwa [Function.update_of_ne hba]

section

variable (h : Account connect P moments c) (hacts : Acts c.state c'.state (P a) st')
  (hmove : Move (rules connect) c a c')

include h hacts

theorem owner_lt_acts {b : Actor} (hb : (Function.update P a st' b).role.owned? = some g) :
    g < c'.state.registry.nextGeneration := by
  rcases owned_update hacts hb with hb | ⟨-, x, hclaims⟩
  · exact Nat.lt_of_lt_of_le (h.owner_lt b g hb) hacts.nextGeneration_le
  · rw [hclaims.claims.next]
    exact Nat.lt_succ_self g

theorem owner_unique_acts {b b' : Actor}
    (hb : (Function.update P a st' b).role.owned? = some g)
    (hb' : (Function.update P a st' b').role.owned? = some g) : b = b' := by
  rcases owned_update hacts hb with hb | ⟨hba, x, hclaims⟩ <;>
    rcases owned_update hacts hb' with hb' | ⟨hba', x', hclaims'⟩
  · exact h.owner_unique b b' g hb hb'
  · have hlt := h.owner_lt b g hb
    rw [hclaims'.claims.number] at hlt
    exact absurd hlt (Nat.lt_irrefl g)
  · have hlt := h.owner_lt b' g hb'
    rw [hclaims.claims.number] at hlt
    exact absurd hlt (Nat.lt_irrefl g)
  · exact hba.trans hba'.symm

omit h in
theorem ordered_mono (hsub : moments ⊆ moments') {v : World ε} (hv : Ordered P moments v) :
    Ordered (Function.update P a st') moments' v :=
  hv.mono hsub
    (fun b _ _ hb hg => ⟨b, (update_eq Stage.ask hacts.ask b).trans hb, owned_mono hacts hg⟩)
    fun b _ => update_eq (fun st : Stage => st.role.created?) hacts.created? b

theorem ordered_acts :
    Ordered (Function.update P a st') (moments ++ [⟨a, c.state, c'.state⟩]) c'.state := by
  have hold := ordered_mono hacts
    (List.subset_append_left moments [⟨a, c.state, c'.state⟩]) h.ordered
  constructor
  case filed =>
    intro key s hs
    rcases hacts.slot? hs with hs | ⟨x, g, name, fileTypes, hclaims, hsame, rfl⟩ |
      ⟨x, g, i, hkeeps, hsame, rfl⟩
    · exact hold.filed key s hs
    · refine ⟨a, x, ?_, ?_, hsame⟩
      · rw [Function.update_self, hclaims.after]
      · rw [Function.update_self, hclaims.after]
        rfl
    · obtain ⟨opened, hafter⟩ := hkeeps.after
      refine ⟨a, x, ?_, ?_, hsame⟩
      · rw [Function.update_self, hafter]
      · rw [Function.update_self, hafter]
        rfl
  case kept =>
    intro key g name i hs
    rcases hacts.slot? hs with hs | ⟨x, g', name', fileTypes, -, -, heq⟩ |
      ⟨x, g', i', hkeeps, -, heq⟩
    · exact hold.kept key g name i hs
    · cases heq
    · cases heq
      obtain ⟨opened, hbefore, hi⟩ := hkeeps.before
      have hasker := h.asker a x (by rw [hbefore])
      obtain ⟨j, p, rfl, -⟩ := hasker.service (g := g) (by rw [hbefore]; rfl)
      have hopened := h.opened (.service j) i (by rw [hbefore]; exact hi)
      refine ⟨j, ?_, hopened.mono (List.subset_append_left _ _)⟩
      rw [update_eq (fun st : Stage => st.role.created?) hacts.created?, hbefore]
      rfl

/-- A generation that is not current under the key of the one who owns it, has no slot. -/
theorem absent_of_not_isCurrent (hask : (P a).ask = some x)
    (howned : (P a).role.owned? = some g)
    (hcurrent : c'.state.registry.isCurrent x.key g = false) : Absent g c'.state := by
  intro key s hs hg
  obtain ⟨b, y, hb, hbg, hsame⟩ := (h.ordered_acts hacts).filed key s hs
  have hba : b = a := by
    refine h.owner_unique_acts hacts (g := g) (hg ▸ hbg) ?_
    exact owned_mono hacts howned
  subst hba
  rw [update_eq Stage.ask hacts.ask, hask] at hb
  cases hb
  have hcur : c'.state.registry.isCurrent x.key g = true := by
    refine isCurrent_iff.2 ⟨s, ?_, hg⟩
    rw [slot?_congr _ hsame, hs]
  cases hcurrent.symm.trans hcur

theorem failed_acts {e : Failure}
    (he : c'.state.registry.outcomes.get? g = some (.error e) ∨
      (∃ b, (Function.update P a st' b).role = .ends g (.error e))) :
    Absent g c'.state ∨ c'.state.registry.isShutDown = true := by
  have hold (hlt : g < c.state.registry.nextGeneration)
      (he : c.state.registry.outcomes.get? g = some (.error e) ∨
        (∃ b, (P b).role = .ends g (.error e))) :
      Absent g c'.state ∨ c'.state.registry.isShutDown = true :=
    (h.failed g e he).imp (hacts.absent hlt) hacts.isShutDown
  -- the failure was told before, or is told by this act and has left no slot
  rcases he with he | ⟨b, hb⟩
  · rcases hacts.outcomes with heq | ⟨x, g', r, opened, hbefore, -, heq⟩
    · rw [heq] at he
      exact hold (h.outcome_lt g _ he) (.inl he)
    · by_cases hne : g' = g
      · subst hne
        rw [heq, Table.get?_put_self] at he
        cases he
        exact hold (h.owner_lt a g' (by rw [hbefore]; rfl)) (.inr ⟨a, by rw [hbefore]⟩)
      · rw [heq, Table.get?_put_ne _ _ hne] at he
        exact hold (h.outcome_lt g _ he) (.inl he)
  · rcases of_update (fun st : Stage => st.role = .ends g (.error e)) hb with ⟨rfl, hnew⟩ | ⟨-, hb⟩
    · rcases hacts.ends_error hnew with hb | ⟨x, opened, hbefore, hgone⟩
      · exact hold (h.owner_lt b g (by rw [hb]; rfl)) (.inr ⟨b, hb⟩)
      · refine hgone.imp_left (h.absent_of_not_isCurrent hacts ?_ ?_)
        · rw [hbefore]
        · rw [hbefore]
          rfl
    · exact hold (h.owner_lt b g (by rw [hb]; rfl)) (.inr ⟨b, hb⟩)

theorem untold_acts {b : Actor} (hb : (Function.update P a st' b).role.owned? = some g)
    (hrole : (Function.update P a st' b).role ≠ .told g) :
    c'.state.registry.outcomes.get? g = none := by
  have hold (hb : (P b).role.owned? = some g) : c.state.registry.outcomes.get? g = none := by
    refine h.untold b g hb fun htold => hrole ?_
    by_cases hba : b = a
    · subst hba
      rw [Function.update_self, hacts.of_told htold, htold]
    · rw [Function.update_of_ne hba, htold]
  have hnone : c.state.registry.outcomes.get? g = none := by
    rcases owned_update hacts hb with hb | ⟨rfl, x, hclaims⟩
    · exact hold hb
    · by_contra hne
      obtain ⟨r, hr⟩ := Option.ne_none_iff_exists'.1 hne
      have hlt := h.outcome_lt g r hr
      rw [hclaims.claims.number] at hlt
      exact Nat.lt_irrefl g hlt
  rcases hacts.outcomes with heq | ⟨x, g', r, opened, hbefore, hafter, heq⟩
  · rw [heq, hnone]
  · have hne : g' ≠ g := by
      rintro rfl
      have hba : b = a := by
        rcases owned_update hacts hb with hb | ⟨rfl, -⟩
        · exact h.owner_unique b a g' hb (by rw [hbefore]; rfl)
        · rfl
      subst hba
      rw [Function.update_self, hafter] at hrole
      exact hrole rfl
    rw [heq, Table.get?_put_ne _ _ hne, hnone]

theorem outcome_lt_acts {r : Outcome} (hr : c'.state.registry.outcomes.get? g = some r) :
    g < c'.state.registry.nextGeneration := by
  refine Nat.lt_of_lt_of_le ?_ hacts.nextGeneration_le
  rcases hacts.outcomes with heq | ⟨x, g', r', opened, hbefore, -, heq⟩
  · exact h.outcome_lt g r (heq ▸ hr)
  · by_cases hne : g' = g
    · subst hne
      exact h.owner_lt a g' (by rw [hbefore]; rfl)
    · rw [heq, Table.get?_put_ne _ _ hne] at hr
      exact h.outcome_lt g r hr

theorem stored_acts {i : Nat} (hok : c'.state.registry.outcomes.get? g = some (.ok i) ∨
      (∃ b, (Function.update P a st' b).role = .ends g (.ok i))) :
    ∃ m ∈ moments ++ [⟨a, c.state, c'.state⟩], Stored g m.after i := by
  have hold (hok : c.state.registry.outcomes.get? g = some (.ok i) ∨
      (∃ b, (P b).role = .ends g (.ok i))) :
      ∃ m ∈ moments ++ [⟨a, c.state, c'.state⟩], Stored g m.after i :=
    let ⟨m, hm, hi⟩ := h.stored g i hok
    ⟨m, List.mem_append_left _ hm, hi⟩
  rcases hok with hok | ⟨b, hb⟩
  · rcases hacts.outcomes with heq | ⟨x, g', r, opened, hbefore, -, heq⟩
    · exact hold (.inl (heq ▸ hok))
    · by_cases hne : g' = g
      · subst hne
        rw [heq, Table.get?_put_self] at hok
        cases hok
        exact hold (.inr ⟨a, by rw [hbefore]⟩)
      · rw [heq, Table.get?_put_ne _ _ hne] at hok
        exact hold (.inl hok)
  · rcases of_update (fun st : Stage => st.role = .ends g (.ok i)) hb with ⟨rfl, hnew⟩ | ⟨-, hb⟩
    · rcases hacts.ends_ok hnew with hb | ⟨x, hkeeps⟩
      · exact hold (.inr ⟨b, hb⟩)
      · exact ⟨_, List.mem_append_right _ (List.mem_singleton_self _), x.key, x.name,
          hkeeps.stored⟩
    · exact hold (.inr ⟨b, hb⟩)

theorem unstored_acts {b : Actor} {i : Nat}
    (hb : (Function.update P a st' b).role.unkept? = some g) : ¬ Stored g c'.state i := by
  rintro ⟨key, name, hs⟩
  rcases hacts.slot? hs with hs | ⟨x, g', name', fileTypes, -, -, heq⟩ |
    ⟨x, g', i', hkeeps, -, heq⟩
  · rcases of_update (fun st : Stage => st.role.unkept? = some g) hb with ⟨rfl, hnew⟩ | ⟨-, hb⟩
    · rcases hacts.unkept? hnew with hb | ⟨x, hclaims⟩
      · exact h.unstored b g hb i ⟨key, name, hs⟩
      · -- the generation is new, and every slot is of one that was claimed before
        obtain ⟨b', y, -, hg, -⟩ := h.ordered.filed key _ hs
        have hlt := h.owner_lt b' _ hg
        rw [hclaims.claims.number] at hlt
        exact Nat.lt_irrefl g hlt
    · exact h.unstored b g hb i ⟨key, name, hs⟩
  · cases heq
  · cases heq
    obtain ⟨opened, hbefore, -⟩ := hkeeps.before
    obtain ⟨opened', hafter⟩ := hkeeps.after
    rcases of_update (fun st : Stage => st.role.unkept? = some g) hb with ⟨rfl, hnew⟩ | ⟨hba, hb⟩
    · rw [hafter] at hnew
      cases hnew
    · refine hba (h.owner_unique b a g (Role.owned?_of_unkept? hb) ?_)
      rw [hbefore]
      rfl

theorem starting_acts {name : String} {fileTypes : List String}
    (hs : c'.state.registry.slot? key = some (.starting g name fileTypes)) :
    SeenTo (Function.update P a st') g ∨ c'.state.registry.isShutDown = true := by
  -- the slot was there before, or is claimed by this act, or is filled by it
  rcases hacts.slot? hs with hold | ⟨x, g', name', fileTypes', hclaims, -, heq⟩ |
    ⟨x, g', i, -, -, heq⟩
  · rcases h.starting key g name fileTypes hold with ⟨b, hb⟩ | hdown
    · by_cases hba : b = a
      · subst hba
        rcases hacts.sees_to hb with hb' | ⟨x, i, hkeeps⟩ | ⟨x, opened, hbefore, hgone | hdown⟩
        · exact .inl ⟨b, by rwa [Function.update_self]⟩
        · -- the slot of the generation is under the key of the creation, and is ready
          obtain ⟨opened, hbefore, -⟩ := hkeeps.before
          obtain ⟨b', y, hask, hg, hsame⟩ := (h.ordered_acts hacts).filed key _ hs
          obtain rfl : b' = b := h.owner_unique_acts hacts hg
            (owned_mono hacts (g := g) (by rw [hbefore]; rfl))
          rw [update_eq Stage.ask hacts.ask, hbefore] at hask
          cases hask
          have hstored := hkeeps.stored
          rw [slot?_congr _ hsame, hs] at hstored
          cases hstored
        · refine absurd rfl (h.absent_of_not_isCurrent hacts (x := x) (g := g) ?_ ?_ hgone key _ hs)
          · rw [hbefore]
          · rw [hbefore]
            rfl
        · exact .inr hdown
      · exact .inl ⟨b, by rwa [Function.update_of_ne hba]⟩
    · exact .inr (hacts.isShutDown hdown)
  · cases heq
    exact .inl ⟨a, .inl (by rw [Function.update_self, hclaims.after])⟩
  · cases heq

theorem opened_lt_acts {b : Actor} {i : Nat}
    (hb : OpenedBy (moments ++ [⟨a, c.state, c'.state⟩]) b i) :
    i < c'.state.connections.length := by
  rcases openedBy_append.1 hb with hb | ⟨-, -, hlt⟩
  · exact Nat.lt_of_lt_of_le (h.opened_lt b i hb) hacts.length_le
  · exact hlt

omit hacts in
theorem opener_unique_acts {b b' : Actor} {i : Nat}
    (hb : OpenedBy (moments ++ [⟨a, c.state, c'.state⟩]) b i)
    (hb' : OpenedBy (moments ++ [⟨a, c.state, c'.state⟩]) b' i) : b = b' := by
  rcases openedBy_append.1 hb with hb | ⟨rfl, hle, -⟩ <;>
    rcases openedBy_append.1 hb' with hb' | ⟨rfl, hle', -⟩
  · exact h.opener_unique b b' i hb hb'
  · exact absurd (h.opened_lt b i hb) (Nat.not_lt.2 hle')
  · exact absurd (h.opened_lt b' i hb') (Nat.not_lt.2 hle)
  · rfl

theorem opened_acts {b : Actor} {i : Nat} (hi : i ∈ (Function.update P a st' b).opened) :
    OpenedBy (moments ++ [⟨a, c.state, c'.state⟩]) b i := by
  rw [openedBy_append]
  rcases of_update (fun st : Stage => i ∈ st.opened) hi with ⟨rfl, hnew⟩ | ⟨-, hi⟩
  · rcases hacts.opened with ⟨-, heq⟩ | ⟨x, g, hopens⟩
    · exact .inl (h.opened b i (heq ▸ hnew))
    · rw [hopens.opened, List.mem_cons] at hnew
      rcases hnew with rfl | hi
      · exact .inr ⟨rfl, Nat.le_refl _, by rw [hopens.length]; exact Nat.lt_succ_self _⟩
      · exact .inl (h.opened b i hi)
  · exact .inl (h.opened b i hi)

theorem opener_acts {b : Actor} {i : Nat}
    (hb : OpenedBy (moments ++ [⟨a, c.state, c'.state⟩]) b i) :
    (Function.update P a st' b).role.created? ≠ none := by
  rw [update_eq (fun st : Stage => st.role.created?) hacts.created?]
  rcases openedBy_append.1 hb with hb | ⟨rfl, hle, hlt⟩
  · exact h.opener b i hb
  · rcases hacts.opened with ⟨hlen, -⟩ | ⟨x, g, hopens⟩
    · exact absurd (Nat.lt_of_le_of_lt hle hlt) (Nat.not_lt.2 (Nat.le_of_eq hlen))
    · obtain ⟨opened, hbefore⟩ := hopens.before
      change (P a).role.created? ≠ none
      rw [hbefore]
      nofun

include hmove

theorem claimed_acts (m : Moment (World ε))
    (hm : m ∈ moments ++ [⟨a, c.state, c'.state⟩])
    (hne : m.after.registry.nextGeneration ≠ m.before.registry.nextGeneration) :
    ∃ k x, m.actor = .client k ∧ Asks c' k x ∧
      Claims x.key m.before.registry.nextGeneration m.before m.after := by
  rcases List.mem_append.1 hm with hm | hm
  · obtain ⟨k, x, hactor, hasks, hclaims⟩ := h.claimed m hm hne
    exact ⟨k, x, hactor, hasks.move hmove, hclaims⟩
  · obtain rfl := List.mem_singleton.1 hm
    rcases hacts.nextGeneration with heq | ⟨x, g, hclaims⟩
    · exact absurd heq hne
    · obtain ⟨k, rfl, hasks⟩ := (h.asker a x (by rw [hclaims.before])).client
        (by rw [hclaims.before]; rfl)
      exact ⟨k, x, rfl, hasks.move hmove, hclaims.claims.number.symm ▸ hclaims.claims⟩

omit hmove

theorem told_acts (m : Moment (World ε)) (hm : m ∈ moments ++ [⟨a, c.state, c'.state⟩])
    (hne : m.after.registry.outcomes.get? g ≠ m.before.registry.outcomes.get? g) :
    m.before.registry.outcomes.get? g = none ∧
      (Function.update P a st' m.actor).role = .told g := by
  rcases List.mem_append.1 hm with hm | hm
  · obtain ⟨hnone, htold⟩ := h.told m hm g hne
    refine ⟨hnone, ?_⟩
    by_cases hma : m.actor = a
    · rw [hma] at htold ⊢
      rw [Function.update_self, hacts.of_told htold, htold]
    · rw [Function.update_of_ne hma, htold]
  · obtain rfl := List.mem_singleton.1 hm
    rcases hacts.outcomes with heq | ⟨x, g', r, opened, hbefore, hafter, heq⟩
    · exact absurd (by rw [heq]) hne
    · have hg : g' = g := by
        by_contra hg
        exact hne (by rw [heq, Table.get?_put_ne _ _ hg])
      subst hg
      refine ⟨h.untold a g' (by rw [hbefore]; rfl) (by rw [hbefore]; nofun), ?_⟩
      rw [Function.update_self, hafter]

include hmove

/-- The account goes on with every action. -/
theorem acts : Account connect (Function.update P a st')
    (moments ++ [⟨a, c.state, c'.state⟩]) c' := by
  have hcreated (b : Actor) :
      (Function.update P a st' b).role.created? = (P b).role.created? :=
    update_eq (fun st : Stage => st.role.created?) hacts.created? b
  refine {
    asker := fun b x hask => ?_
    roleless := fun b hask => ?_
    past := fun b x hask => ?_
    owner_unique := fun b b' g => h.owner_unique_acts hacts
    owner_lt := fun b g => h.owner_lt_acts hacts
    acted := fun m hm => ?_
    ordered := h.ordered_acts hacts
    orderedPast := fun m hm => ?_
    untold := fun b g => h.untold_acts hacts
    outcome_lt := fun g r => h.outcome_lt_acts hacts
    stored := fun g i => h.stored_acts hacts
    unstored := fun b g hb i => h.unstored_acts hacts hb
    starting := fun key g name fileTypes => h.starting_acts hacts
    failed := fun g e => h.failed_acts hacts
    opened_lt := fun b i => h.opened_lt_acts hacts
    opener_unique := fun b b' i => h.opener_unique_acts
    opened := fun b i => h.opened_acts hacts
    opener := fun b i => h.opener_acts hacts
    claimed := h.claimed_acts hacts hmove
    told := fun m hm g => h.told_acts hacts m hm }
  · rw [update_eq Stage.ask hacts.ask] at hask
    have hasker := (h.asker b x hask).move hmove
    unfold IsAsker at hasker ⊢
    rwa [hcreated]
  · rw [update_eq Stage.ask hacts.ask] at hask
    by_cases hba : b = a
    · subst hba
      rw [Function.update_self, hacts.of_none hask]
      exact h.roleless b hask
    · rw [Function.update_of_ne hba]
      exact h.roleless b hask
  · rw [update_eq Stage.ask hacts.ask] at hask
    by_cases hba : b = a
    · subst hba
      rw [Function.update_self]
      exact h.past_acts hacts hmove hask
    · rw [Function.update_of_ne hba]
      exact Past.mono (h.lasts hacts hmove) (h.past b x hask)
  · rcases List.mem_append.1 hm with hm | hm
    · exact h.acted m hm
    · obtain rfl := List.mem_singleton.1 hm
      exact ⟨_, _, hacts⟩
  · have hmono {v : World ε} (hv : Ordered P moments v) :=
      ordered_mono hacts (List.subset_append_left moments [⟨a, c.state, c'.state⟩]) hv
    rcases List.mem_append.1 hm with hm | hm
    · exact ⟨hmono (h.orderedPast m hm).1, hmono (h.orderedPast m hm).2⟩
    · obtain rfl := List.mem_singleton.1 hm
      exact ⟨hmono h.ordered, h.ordered_acts hacts⟩

end

end Account

end LspClient.Registry
