import LspClient.Proofs.Program.Playing
import LspClient.Proofs.Program.Staged
import LspClient.Proofs.Workspace.Editing

/-!
# Workspace edits one by one

Requests to edit files may be at work side by side, each in steps of its own. As long as a request
that names a file which an earlier one names comes when that one has replied (`OneByOne`), the
files are in the end as if the requests had been carried out one after another, in the order in
which they came (`edits_one_by_one`). While a request holds the text of a file, nobody else writes
that file (`Serial.holds`).

Where two requests name one file at the same time, the edit of one of them can be lost, and both
are said to be applied (`lost_edit`).
-/

namespace LspClient.Workspace

open Program Crew
open FileTree

variable {ε : Type} {t₀ : FileTree} {w : World ε} {settings : Option Json}

abbrev Reply := Except ResponseError Json

/-- Any number of requests of the server; nobody else changes a file. -/
def editors (ε : Type) (t₀ : FileTree) (settings : Option Json) :
    Rules (World ε) (PlannedEdit t₀) Reply where
  program x := handle settings "workspace/applyEdit" x.params
  Serves _ := False
  Outside w w' := w'.files = w.files

def PlannedEdit.locations (x : PlannedEdit t₀) : List Location := x.plan.map (·.1)

/-- The requests name a file in common. -/
def Shares (x y : PlannedEdit t₀) : Prop := ∃ l ∈ x.locations, l ∈ y.locations

instance (x y : PlannedEdit t₀) : Decidable (Shares x y) :=
  inferInstanceAs (Decidable (∃ l ∈ x.locations, l ∈ y.locations))

/-- Of two requests that name one file, the earlier one is over. -/
def OneByOne (c : Crew (World ε) (PlannedEdit t₀) Reply) : Prop :=
  c.clients.Pairwise fun a b => Shares a.1 b.1 → a.2.result?.isSome = true

instance : DecidablePred (OneByOne : Crew (World ε) (PlannedEdit t₀) Reply → Prop) := fun c =>
  inferInstanceAs (Decidable (c.clients.Pairwise _))

theorem obeys_editors :
    (editors ε t₀ settings).Obeys (editing ε t₀) (fun x => ⟨[], x.plan, none⟩) Ended where
  program := follows_applyEdit
  serves _ h := h.elim
  outside _ _ hinv h := .still (sameContents_of_files_eq hinv h)

/-! ### What was made of a file -/

theorem Plan.on_append (plan more : Plan) (l : Location) :
    Plan.on (plan ++ more) l = plan.on l ++ more.on l := by
  simp [Plan.on]

theorem Plan.on_singleton (l l' : Location) (edits : List TextEdit) :
    Plan.on [(l, edits)] l' = if l = l' then [edits] else [] := by
  unfold Plan.on
  split <;> simp_all

theorem Plan.on_eq_nil {plan : Plan} {l : Location} (h : l ∉ plan.map (·.1)) :
    plan.on l = [] := by
  have hne : ∀ e ∈ plan, ¬ e.1 = l := fun e he heq => h (List.mem_map.2 ⟨e, he, heq⟩)
  rw [Plan.on, List.filter_eq_nil_iff.2 (by simpa using hne)]
  rfl

/-- What the first `n` requests have carried out on a file. -/
def madeOn (P : Actor → Progress) (n : Nat) (l : Location) : List (List TextEdit) :=
  (List.range n).flatMap fun k => (P (.client k)).made.on l

variable {P : Actor → Progress} {g : Progress} {a : Actor} {k n : Nat} {l l' : Location}
  {edits : List TextEdit}

theorem madeOn_succ (P : Actor → Progress) (n : Nat) (l : Location) :
    madeOn P (n + 1) l = madeOn P n l ++ (P (.client n)).made.on l := by
  simp [madeOn, List.range_succ]

theorem madeOn_congr {P' : Actor → Progress}
    (h : ∀ k, k < n → (P' (.client k)).made.on l = (P (.client k)).made.on l) :
    madeOn P' n l = madeOn P n l := by
  induction n with
  | zero => rfl
  | succ n ih =>
    rw [madeOn_succ, madeOn_succ, ih fun k hk => h k (Nat.lt_succ_of_lt hk),
      h n (Nat.lt_succ_self n)]

theorem madeOn_update (h : g.made = (P a).made) (n : Nat) (l : Location) :
    madeOn (Function.update P a g) n l = madeOn P n l :=
  madeOn_congr fun k _ => congrArg (Plan.on · l) (update_eq Progress.made h (.client k))

/-- What a request carries out comes last, if no later one has done anything to the file. -/
theorem madeOn_grow (hg : g.made = (P (.client k)).made ++ [(l, edits)])
    (hlater : ∀ j, k < j → (P (.client j)).made.on l = []) (hk : k < n) (l' : Location) :
    madeOn (Function.update P (.client k) g) n l' =
      madeOn P n l' ++ if l = l' then [edits] else [] := by
  have hother (j : Nat) (hj : j ≠ k) : Function.update P (.client k) g (.client j) =
      P (.client j) := Function.update_of_ne (fun heq => hj (Actor.client.inj heq)) g P
  -- by induction on the clients: the plan grows at `k` and is the same before and behind it
  induction n with
  | zero => omega
  | succ n ih =>
    rw [madeOn_succ, madeOn_succ]
    by_cases hn : n = k
    · subst hn
      have hbefore : madeOn (Function.update P (.client n) g) n l' = madeOn P n l' :=
        madeOn_congr fun j hj => by rw [hother j (Nat.ne_of_lt hj)]
      rw [hbefore, Function.update_self, hg, Plan.on_append, Plan.on_singleton,
        List.append_assoc]
    · rw [ih (by omega), hother n hn]
      split
      · next heq =>
        subst heq
        rw [hlater n (by omega)]
        simp
      · simp

/-! ### The account of a run -/

variable {c c' : Crew (World ε) (PlannedEdit t₀) Reply}

/-- What is true of the requests and of the files after a run. -/
structure Serial (t₀ : FileTree) (P : Actor → Progress)
    (c : Crew (World ε) (PlannedEdit t₀) Reply) : Prop where
  staged : Staged (editing ε t₀) Ended P c
  planned : ∀ k x p, c.clients[k]? = some (x, p) →
    (P (.client k)).made ++ (P (.client k)).todo = x.plan
  idle : ∀ a, (∀ k, a ≠ .client k) → P a = ⟨[], [], none⟩
  content : ∀ n, c.clients.length ≤ n → ∀ l, c.state.files.contentOf l =
    (t₀.contentOf l).bind fun bytes => (madeOn P n l).foldlM editBytes bytes
  holds : ∀ k made l edits todo text, P (.client k) = ⟨made, (l, edits) :: todo, some text⟩ →
    HasText c.state.files l text

/-- The program of one who moves is not over. -/
theorem result?_of_move {R : Rules (World ε) (PlannedEdit t₀) Reply}
    (hmove : Move R c (.client k) c') {x : PlannedEdit t₀} {p : Work ε Reply}
    (hk : c.clients[k]? = some (x, p)) : p.result? = none := by
  cases hmove with
  | enter y => simp at hk
  | client hj hstep =>
    rw [hk] at hj
    cases hj
    cases hstep <;> rfl

theorem OneByOne.over {j : Nat} {x y : PlannedEdit t₀} {p q : Work ε Reply} (h : OneByOne c)
    (hjk : j < k) (hj : c.clients[j]? = some (x, p)) (hk : c.clients[k]? = some (y, q))
    (hshares : Shares x y) : p.result?.isSome = true := by
  obtain ⟨hjlt, hj⟩ := List.getElem?_eq_some_iff.1 hj
  obtain ⟨hklt, hk⟩ := List.getElem?_eq_some_iff.1 hk
  have hpair := List.pairwise_iff_getElem.1 h j k hjlt hklt hjk
  rw [hj, hk] at hpair
  exact hpair hshares

namespace Serial

section

variable (h : Serial t₀ P c)

include h

/-- Who has something to do is one of the requests. -/
theorem client_of_todo (ha : (P a).todo ≠ []) :
    ∃ k x p, a = .client k ∧ c.clients[k]? = some (x, p) := by
  cases a with
  | client k =>
    rcases Nat.lt_or_ge k c.clients.length with hlt | hge
    · exact ⟨k, c.clients[k].1, c.clients[k].2, rfl, by simp [hlt]⟩
    · have hidle : P (.client k) = ⟨[], [], none⟩ := h.staged.clients.idle k hge
      rw [hidle] at ha
      exact absurd rfl ha
  | service k =>
    rw [h.idle _ (by simp)] at ha
    exact absurd rfl ha
  | outside =>
    rw [h.idle _ (by simp)] at ha
    exact absurd rfl ha

theorem mem_locations_of_todo {x : PlannedEdit t₀} {p : Work ε Reply}
    (hk : c.clients[k]? = some (x, p)) (hl : l ∈ (P (.client k)).todo.map (·.1)) :
    l ∈ x.locations := by
  rw [PlannedEdit.locations, ← h.planned k x p hk, List.map_append]
  exact List.mem_append_right _ hl

theorem mem_locations_of_made {x : PlannedEdit t₀} {p : Work ε Reply}
    (hk : c.clients[k]? = some (x, p)) (hl : l ∈ (P (.client k)).made.map (·.1)) :
    l ∈ x.locations := by
  rw [PlannedEdit.locations, ← h.planned k x p hk, List.map_append]
  exact List.mem_append_left _ hl

/-- No later request has done anything to a file that one is about to edit. -/
theorem no_later {R : Rules (World ε) (PlannedEdit t₀) Reply} (hone : OneByOne c)
    (hmove : Move R c (.client k) c') (hl : l ∈ (P (.client k)).todo.map (·.1)) {j : Nat}
    (hkj : k < j) : (P (.client j)).made.on l = [] := by
  refine Plan.on_eq_nil fun hmade => ?_
  obtain ⟨k', x, p, heq, hk⟩ := h.client_of_todo (a := .client k) (by rintro heq; simp [heq] at hl)
  obtain rfl := Actor.client.inj heq
  rcases Nat.lt_or_ge j c.clients.length with hlt | hge
  · have hj : c.clients[j]? = some (c.clients[j].1, c.clients[j].2) := by simp [hlt]
    have hover := hone.over hkj hk hj
      ⟨l, h.mem_locations_of_todo hk hl, h.mem_locations_of_made hj hmade⟩
    rw [result?_of_move hmove hk] at hover
    cases hover
  · have hidle : P (.client j) = ⟨[], [], none⟩ := h.staged.clients.idle j hge
    rw [hidle] at hmade
    cases hmade

/-- No other request holds the text of a file that one is about to edit. -/
theorem no_other {R : Rules (World ε) (PlannedEdit t₀) Reply} (hone : OneByOne c)
    (hmove : Move R c (.client k) c') (hl : l ∈ (P (.client k)).todo.map (·.1)) {j : Nat}
    (hne : j ≠ k) {made todo : Plan} {text : String} :
    P (.client j) ≠ ⟨made, (l, edits) :: todo, some text⟩ := by
  intro hj
  obtain ⟨k', x, p, heq, hk⟩ := h.client_of_todo (a := .client k) (by rintro heq; simp [heq] at hl)
  obtain rfl := Actor.client.inj heq
  obtain ⟨j', y, q, heq, hj'⟩ := h.client_of_todo (a := .client j) (by rw [hj]; simp)
  obtain rfl := Actor.client.inj heq
  have hlx := h.mem_locations_of_todo hk hl
  have hly := h.mem_locations_of_todo hj' (l := l) (by rw [hj]; simp)
  rcases Nat.lt_or_gt_of_ne hne with hlt | hgt
  · -- the other one came before, so it is over and holds nothing
    obtain ⟨r, hr⟩ := Option.isSome_iff_exists.1 (hone.over hlt hj' hk ⟨l, hly, hlx⟩)
    rw [eq_done_of_result? hr] at hj'
    obtain ⟨hnone, -⟩ : Ended y (P (.client j)) r := h.staged.clients.follows j y _ hj'
    rw [hj] at hnone
    cases hnone
  · have hover := hone.over hgt hk hj' ⟨l, hlx, hly⟩
    rw [result?_of_move hmove hk] at hover
    cases hover

theorem content_grow {R : Rules (World ε) (PlannedEdit t₀) Reply} (hone : OneByOne c)
    (hmove : Move R c a c') {made todo : Plan} {holds : Option String}
    (ha : P a = ⟨made, (l, edits) :: todo, holds⟩)
    (hl : (c.state.files.contentOf l).bind (fun bytes => editBytes bytes edits) =
      c'.state.files.contentOf l)
    (hother : ∀ l', l' ≠ l → c'.state.files.contentOf l' = c.state.files.contentOf l')
    (hn : c.clients.length ≤ n) (l' : Location) : c'.state.files.contentOf l' =
      (t₀.contentOf l').bind fun bytes =>
        (madeOn (Function.update P a ⟨made ++ [(l, edits)], todo, none⟩) n l').foldlM
          editBytes bytes := by
  obtain ⟨k, x, p, rfl, hk⟩ := h.client_of_todo (a := a) (by rw [ha]; simp)
  have hlt := (List.getElem?_eq_some_iff.1 hk).1
  have hgrow := madeOn_grow (n := n) (g := ⟨made ++ [(l, edits)], todo, none⟩)
    (show _ = (P (.client k)).made ++ [(l, edits)] by rw [ha])
    (fun j hj => h.no_later hone hmove (by rw [ha]; simp) hj) (by omega) l'
  rw [hgrow]
  by_cases hll : l = l'
  · subst hll
    rw [if_pos rfl, ← hl, h.content n hn l, Option.bind_assoc]
    congr 1
    funext bytes
    rw [List.foldlM_append]
    simp
  · rw [if_neg hll, List.append_nil, hother l' (Ne.symm hll), h.content n hn l']

theorem content_acts {R : Rules (World ε) (PlannedEdit t₀) Reply} (hone : OneByOne c)
    (hmove : Move R c a c') (hacts : Edits c.state c'.state (P a) g) (hn : c.clients.length ≤ n)
    (l : Location) : c'.state.files.contentOf l = (t₀.contentOf l).bind fun bytes =>
      (madeOn (Function.update P a g) n l).foldlM editBytes bytes := by
  have hsame (hsame : c.state.files.SameContents c'.state.files) (hg : g.made = (P a).made) :
      c'.state.files.contentOf l = (t₀.contentOf l).bind fun bytes =>
        (madeOn (Function.update P a g) n l).foldlM editBytes bytes := by
    rw [hsame.contents, h.content n hn l, madeOn_update hg]
  generalize ha : P a = g₀ at hacts hsame
  cases hacts with
  | still hs => exact hsame hs rfl
  | drop hs => exact hsame hs rfl
  | read hs => exact hsame hs rfl
  | pass hs htext happly =>
    obtain ⟨bytes, hbytes, hdecode⟩ := htext
    refine h.content_grow hone hmove ha ?_ (fun l' _ => hs.contents l') hn l
    rw [hs.contents, hbytes]
    simp [editBytes, hdecode, happly, Except.toOption]
  | @write made todo l' edits text updated hs happly hne =>
    obtain ⟨k, -, -, rfl, -⟩ := h.client_of_todo (a := a) (by rw [ha]; simp)
    obtain ⟨bytes, hbytes, hdecode⟩ := h.holds k made l' edits todo text ha
    refine h.content_grow hone hmove ha ?_ hs.others hn l
    rw [hs.content, hbytes]
    simp [editBytes, hdecode, happly, Except.toOption, hne]

theorem holds_acts {R : Rules (World ε) (PlannedEdit t₀) Reply} (hone : OneByOne c)
    (hmove : Move R c a c') (hacts : Edits c.state c'.state (P a) g) {made todo : Plan}
    {text : String}
    (hk : Function.update P a g (.client k) = ⟨made, (l, edits) :: todo, some text⟩) :
    HasText c'.state.files l text := by
  have hkeep (hl : c'.state.files.contentOf l = c.state.files.contentOf l)
      (htext : HasText c.state.files l text) : HasText c'.state.files l text := by
    rwa [HasText, hl]
  rcases of_update (· = Progress.mk made ((l, edits) :: todo) (some text)) hk with
    ⟨rfl, rfl⟩ | ⟨hka, hold⟩
  · generalize ha : P (.client k) = g₀ at hacts
    cases hacts with
    | still hs => exact hkeep (hs.contents l) (h.holds k _ _ _ _ _ ha)
    | read hs htext => exact hkeep (hs.contents l) htext
  · have htext := h.holds k _ _ _ _ _ hold
    generalize ha : P a = g₀ at hacts
    cases hacts with
    | still hs => exact hkeep (hs.contents l) htext
    | drop hs => exact hkeep (hs.contents l) htext
    | read hs => exact hkeep (hs.contents l) htext
    | pass hs => exact hkeep (hs.contents l) htext
    | @write made' todo' l' edits' text' updated hs =>
      -- two clients at work would be two edits at once
      obtain ⟨j, -, -, rfl, -⟩ := h.client_of_todo (a := a) (by rw [ha]; simp)
      by_cases hl : l = l'
      · subst hl
        have hne : k ≠ j := fun heq => hka (by rw [heq])
        exact absurd hold (h.no_other hone hmove (by rw [ha]; simp) hne)
      · exact hkeep (hs.others l hl) htext

end

theorem start (hwf : w.files.WellFormed) :
    Serial w.files (fun _ => ⟨[], [], none⟩) (Crew.ofState w) where
  staged := staged_ofState (.refl hwf)
  planned k x p hk := by simp [Crew.ofState] at hk
  idle _ _ := rfl
  content n _ l := by
    have hnone : madeOn (fun _ => ⟨[], [], none⟩) n l = [] := by simp [madeOn, Plan.on]
    rw [hnone]
    change w.files.contentOf l = (w.files.contentOf l).bind some
    simp
  holds _ _ _ _ _ _ hk := by cases hk

theorem eq_of_idle {w w' : World ε} (h : Edits w w' ⟨[], [], none⟩ g) : g = ⟨[], [], none⟩ := by
  cases h <;> rfl

theorem plan_eq {w w' : World ε} {g g' : Progress} (h : Edits w w' g g') :
    g'.made ++ g'.todo = g.made ++ g.todo := by
  cases h <;> simp

theorem length_le_of_move {R : Rules (World ε) (PlannedEdit t₀) Reply} (hmove : Move R c a c') :
    c.clients.length ≤ c'.clients.length := by
  cases hmove <;> simp

theorem move (h : Serial t₀ P c) (hone : OneByOne c)
    (hmove : Move (editors ε t₀ settings) c a c') : ∃ P', Serial t₀ P' c' := by
  obtain ⟨P', hgoes, hstaged⟩ := hmove.staged obeys_editors h.staged
  cases hgoes with
  | @acts _ _ g hacts hnone =>
    -- the client that acts has its plan at hand, and all others stand as they did
    refine ⟨_, hstaged, fun k x p hk => ?_, fun b hb => ?_, fun n hn l => ?_,
      fun k made l edits todo text hk => h.holds_acts hone hmove hacts hk⟩
    · obtain ⟨q, hq⟩ := hnone k x p hk
      exact (update_eq (fun g : Progress => g.made ++ g.todo) (plan_eq hacts) _).trans
        (h.planned k x q hq)
    · by_cases hba : b = a
      · subst hba
        have hacts' : Edits c.state c'.state (P b) g := hacts
        rw [h.idle b hb] at hacts'
        rw [Function.update_self, eq_of_idle hacts']
      · rw [Function.update_of_ne hba, h.idle b hb]
    · exact h.content_acts hone hmove hacts
        (Nat.le_trans (length_le_of_move hmove) hn) l
  | @enters _ x p hs hc =>
    have hidle : P (.client c.clients.length) = ⟨[], [], none⟩ :=
      h.staged.clients.idle _ (Nat.le_refl _)
    refine ⟨_, hstaged, fun k y q hk => ?_, fun b hb => ?_, fun n hn l => ?_,
      fun k made l edits todo text hk => ?_⟩
    · rw [hc] at hk
      rcases Nat.lt_or_ge k c.clients.length with hlt | hge
      · rw [List.getElem?_append_left hlt] at hk
        have hne : Actor.client k ≠ .client c.clients.length := fun heq =>
          Nat.ne_of_lt hlt (Actor.client.inj heq)
        rw [Function.update_of_ne hne, h.planned k y q hk]
      · obtain ⟨hlen, heq⟩ := List.getElem?_eq_some_iff.1 hk
        rw [List.length_append, List.length_singleton] at hlen
        obtain rfl : k = c.clients.length := by omega
        rw [List.getElem_concat_length rfl] at heq
        cases heq
        rw [Function.update_self]
        rfl
    · rw [Function.update_of_ne (hb _), h.idle b hb]
    · rw [madeOn_update (by rw [hidle]), hs]
      exact h.content n (Nat.le_trans (length_le_of_move hmove) hn) l
    · rcases of_update (· = Progress.mk made ((l, edits) :: todo) (some text)) hk with
        ⟨-, hnew⟩ | ⟨-, hold⟩
      · cases congrArg Progress.holds hnew
      · rw [hs]
        exact h.holds k made l edits todo text hold
  | hands _ hhands => exact hhands.elim

end Serial

theorem exists_serial {moments : List (Moment (World ε))} (hwf : w.files.WellFormed)
    {c : Crew (World ε) (PlannedEdit w.files) Reply}
    (run : RunIn (editors ε w.files settings) OneByOne (Crew.ofState w) moments c) :
    OneByOne c ∧ ∃ P, Serial w.files P c := by
  induction run with
  | nil h => exact ⟨h, _, Serial.start hwf⟩
  | move run hmove hc' ih =>
    obtain ⟨hone, P, h⟩ := ih
    exact ⟨hc', h.move hone hmove⟩

/-- What was carried out on a file when all requests have been applied. -/
theorem madeOn_of_applied (h : Serial t₀ P c)
    (hall : ∀ e ∈ c.clients, e.2.result? = some applied) (l : Location) :
    madeOn P c.clients.length l = c.clients.flatMap fun e => e.1.plan.on l := by
  have hmade (k : Nat) (hk : k < c.clients.length) :
      (P (.client k)).made = c.clients[k].1.plan := by
    have hresult := hall _ (List.getElem_mem hk)
    have hdone := eq_done_of_result? hresult
    have hclient : c.clients[k]? = some (c.clients[k].1, .done applied) := by
      rw [List.getElem?_eq_getElem hk, ← hdone]
    obtain ⟨-, hended⟩ : Ended c.clients[k].1 (P (.client k)) applied :=
      h.staged.clients.follows k _ _ hclient
    rw [hended rfl]
  rw [madeOn, List.flatMap_def, List.flatMap_def]
  congr 1
  refine List.ext_getElem (by simp) fun k hk hk' => ?_
  rw [List.length_map, List.length_range] at hk
  simp [hmade k hk]

/-- Requests that come one by one, as far as they name the same files, leave each file as if they
had been carried out one after another. -/
theorem edits_one_by_one {moments : List (Moment (World ε))}
    {c : Crew (World ε) (PlannedEdit w.files) Reply} (hwf : w.files.WellFormed)
    (run : RunIn (editors ε w.files settings) OneByOne (Crew.ofState w) moments c)
    (hall : ∀ e ∈ c.clients, e.2.result? = some applied) (l : Location) :
    match w.files.contentOf l with
    | none => c.state.files.contentOf l = none
    | some bytes => ∃ bytes', c.state.files.contentOf l = some bytes' ∧
        (c.clients.flatMap fun e => e.1.plan.on l).foldlM editBytes bytes = some bytes' := by
  obtain ⟨-, P, h⟩ := exists_serial hwf run
  have hcontent := h.content _ (Nat.le_refl _) l
  rw [madeOn_of_applied h hall] at hcontent
  cases hold : w.files.contentOf l with
  | none => rw [hcontent, hold]; rfl
  | some bytes =>
    rw [hold] at hcontent
    obtain ⟨bytes', hbytes'⟩ := Option.ne_none_iff_exists'.1
      (h.staged.inv.files l (by rw [hold]; nofun))
    exact ⟨bytes', hbytes', hcontent.symm.trans hbytes'⟩

/-- Whether a request is over and says that it was applied. -/
def isApplied : Option Reply → Bool
  | some (.ok (.obj [(key, .bool b)])) => key == "applied" && b
  | _ => false

theorem isApplied_iff (r : Option Reply) : isApplied r = true ↔ r = some applied := by
  constructor
  · intro h
    unfold isApplied at h
    split at h
    · simp only [Bool.and_eq_true, beq_iff_eq] at h
      rw [h.1, h.2]
      rfl
    · cases h
  · rintro rfl
    rfl

instance (r : Option Reply) : Decidable (r = some applied) :=
  decidable_of_iff _ (isApplied_iff r)

/-! ### Two requests for one file -/

/-- A request to put a text in front of a file. -/
def prefixing (uri text : String) : Option Json :=
  let start := Json.object [("line", .nat 0), ("character", .nat 0)]
  let edit := Json.object [("range", .object [("start", start)]), ("newText", .str text)]
  some (.object [("edit", .object [("changes", .object [(uri, .arr [edit])])])])

def inFront (text : String) : List TextEdit := [⟨⟨⟨0, 0⟩, ⟨0, 0⟩⟩, text⟩]

def twoFiles : FileTree :=
  ⟨[([], .dir 0o755), (["f"], .file (Utf8.encode "text") 0o644),
    (["g"], .file (Utf8.encode "more") 0o644)], [], 0o022⟩

def inWorld : World Unit := World.ofFiles twoFiles ()

def editF (text : String) (h : (filesOf? (prefixing "file:///f" text)).bind (planOf twoFiles) =
    some [(["f"], inFront text)]) : PlannedEdit inWorld.files := ⟨_, _, h⟩

def firstF : PlannedEdit inWorld.files := editF "a" (by decide +kernel)

def secondF : PlannedEdit inWorld.files := editF "b" (by decide +kernel)

def onlyG : PlannedEdit inWorld.files where
  params := prefixing "file:///g" "c"
  plan := [(["g"], inFront "c")]
  planned := by decide +kernel

/-- What is under way in the background comes to its end. -/
def settle (w : World Unit) : World Unit :=
  { w with finished := w.jobs ++ w.finished, jobs := [] }

/-- Two requests are read and written side by side. -/
def sideBySide : List (Choice (editors Unit inWorld.files none)) :=
  [.client 0, .client 1, .outside settle fun _ => rfl, .client 0, .client 1,
    .client 0, .client 1, .outside settle fun _ => rfl, .client 0, .client 1]

/-- Requests for two files at a time, and then another one for the first. -/
def oneByOne : List (Choice (editors Unit inWorld.files none)) :=
  [.enter firstF, .enter onlyG] ++ sideBySide ++ [.enter secondF, .client 2,
    .outside settle fun _ => rfl, .client 2, .client 2, .outside settle fun _ => rfl, .client 2]

def afterOneByOne : Crew (World Unit) (PlannedEdit inWorld.files) Reply :=
  (playIn OneByOne oneByOne ([], Crew.ofState inWorld)).2

theorem edits_one_by_one_twoFiles :
    afterOneByOne.clients.length = 3 ∧
    ∃ bytes, afterOneByOne.state.files.contentOf ["f"] = some bytes ∧
      (afterOneByOne.clients.flatMap fun e => e.1.plan.on ["f"]).foldlM editBytes
        (Utf8.encode "text") = some bytes :=
  have hwf : inWorld.files.WellFormed :=
    wellFormed_of_entries (by decide +kernel) (by decide +kernel)
  have hall : ∀ e ∈ afterOneByOne.clients, e.2.result? = some applied := by decide +kernel
  ⟨by decide +kernel, edits_one_by_one hwf (runIn_playIn oneByOne (.nil .nil)) hall ["f"]⟩

def afterSideBySide : Crew (World Unit) (PlannedEdit inWorld.files) Reply :=
  (play ([.enter firstF, .enter secondF] ++ sideBySide) ([], Crew.ofState inWorld)).2

/-- Both requests are said to be applied, and the edit of the first is lost: in whatever order they
are carried out, it is not what comes out. -/
theorem lost_edit :
    (afterSideBySide.clients.length = 2 ∧
      ∀ e ∈ afterSideBySide.clients, e.2.result? = some applied) ∧
    afterSideBySide.state.files.contentOf ["f"] = some (Utf8.encode "btext") ∧
    [inFront "a", inFront "b"].foldlM editBytes (Utf8.encode "text") =
      some (Utf8.encode "batext") ∧
    [inFront "b", inFront "a"].foldlM editBytes (Utf8.encode "text") =
      some (Utf8.encode "abtext") := by
  decide +kernel

end LspClient.Workspace
