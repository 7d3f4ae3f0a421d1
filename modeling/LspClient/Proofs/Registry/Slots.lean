import LspClient.Registry.Basic
import Mathlib.Data.List.Pairwise

/-!
# Slots

What is under a key after a registry was changed. No two slots have keys that stand for one
connection (`Distinct`); every operation keeps that. Taking slots out leaves the others where they
are (`Trims`).
-/

namespace LspClient

namespace ConnectionKey

variable {a b c : ConnectionKey}

theorem Same.refl (a : ConnectionKey) : a.Same a := ⟨rfl, rfl⟩

theorem Same.symm (h : a.Same b) : b.Same a := ⟨h.1.symm, h.2.symm⟩

theorem Same.trans (h : a.Same b) (h' : b.Same c) : a.Same c :=
  ⟨h.1.trans h'.1, Eq.trans (show a.cwd.components = b.cwd.components from h.2) h'.2⟩

end ConnectionKey

namespace Registry

variable {r r' r'' : Registry} {key key' : ConnectionKey} {s slot : Slot} {g : Nat}

/-- The first entry under a key. -/
def lookup (slots : List (ConnectionKey × Slot)) (key : ConnectionKey) : Option Slot :=
  (slots.find? fun s => decide (s.1.Same key)).map (·.2)

theorem slot?_eq_lookup (r : Registry) (key : ConnectionKey) :
    r.slot? key = lookup r.slots key := rfl

theorem lookup_cons (e : ConnectionKey × Slot) (slots : List (ConnectionKey × Slot))
    (key : ConnectionKey) :
    lookup (e :: slots) key = if e.1.Same key then some e.2 else lookup slots key := by
  by_cases h : e.1.Same key <;> simp [lookup, h]

theorem lookup_eq_none {slots : List (ConnectionKey × Slot)} :
    lookup slots key = none ↔ ∀ e ∈ slots, ¬ e.1.Same key := by
  simp [lookup]

theorem exists_mem_of_lookup {slots : List (ConnectionKey × Slot)}
    (h : lookup slots key = some s) : ∃ e ∈ slots, e.1.Same key ∧ e.2 = s := by
  obtain ⟨e, he, rfl⟩ := Option.map_eq_some_iff.1 h
  exact ⟨e, List.mem_of_find?_eq_some he, by simpa using List.find?_some he, rfl⟩

theorem lookup_congr (slots : List (ConnectionKey × Slot)) (h : key.Same key') :
    lookup slots key = lookup slots key' := by
  have hsame (e : ConnectionKey × Slot) : e.1.Same key ↔ e.1.Same key' :=
    ⟨fun he => he.trans h, fun he => he.trans h.symm⟩
  simp only [lookup, hsame]

theorem slot?_congr (r : Registry) (h : key.Same key') : r.slot? key = r.slot? key' :=
  lookup_congr r.slots h

/-! ### Filling and removing -/

theorem lookup_replace (slots : List (ConnectionKey × Slot)) (key key' : ConnectionKey)
    (slot : Slot) :
    lookup (slots.map fun s => if s.1.Same key then (s.1, slot) else s) key' =
      if key.Same key' then (lookup slots key').map fun _ => slot else lookup slots key' := by
  induction slots with
  | nil => simp [lookup]
  | cons e slots ih =>
    rw [List.map_cons, lookup_cons, lookup_cons, ih]
    by_cases he : e.1.Same key
    · by_cases hkey : key.Same key'
      · simp [he, hkey, he.trans hkey]
      · have hne : ¬ e.1.Same key' := fun h => hkey (he.symm.trans h)
        simp [he, hkey, hne]
    · by_cases hkey : key.Same key'
      · have hne : ¬ e.1.Same key' := fun h => he (h.trans hkey.symm)
        simp [he, hkey, hne]
      · simp [he, hkey]

theorem slot?_fill (r : Registry) (key key' : ConnectionKey) (slot : Slot) :
    (r.fill key slot).slot? key' = if key.Same key' then some slot else r.slot? key' := by
  unfold fill
  split
  · next hsome =>
    rw [slot?_eq_lookup, lookup_replace]
    split
    · next hkey =>
      obtain ⟨s, hs⟩ := Option.isSome_iff_exists.1 hsome
      rw [← lookup_congr r.slots hkey, ← slot?_eq_lookup, hs]
      rfl
    · rfl
  · next hnone =>
    have hfree : r.slot? key = none := by simpa using hnone
    rw [slot?_eq_lookup, slot?_eq_lookup, lookup, List.find?_append]
    split
    · next hkey =>
      have hfree' : (r.slots.find? fun s => decide (s.1.Same key')) = none := by
        have hnone' := (lookup_congr r.slots hkey).symm.trans hfree
        simpa [lookup] using hnone'
      simp [hfree', hkey]
    · next hkey => simp [hkey, lookup]

theorem slot?_remove (r : Registry) (key key' : ConnectionKey) :
    (r.remove key).slot? key' = if key.Same key' then none else r.slot? key' := by
  have hslots (slots : List (ConnectionKey × Slot)) :
      lookup (slots.filter fun s => !decide (s.1.Same key)) key' =
        if key.Same key' then none else lookup slots key' := by
    induction slots with
    | nil => simp [lookup]
    | cons e slots ih =>
      rw [List.filter_cons]
      by_cases he : e.1.Same key
      · have hiff : e.1.Same key' ↔ key.Same key' :=
          ⟨fun h => he.symm.trans h, fun h => he.trans h⟩
        simp only [he, decide_true, Bool.not_true, Bool.false_eq_true, if_false, ih, lookup_cons,
          hiff]
        split <;> rfl
      · simp only [he, decide_false, Bool.not_false, if_true, lookup_cons, ih]
        by_cases hkey : key.Same key'
        · have hne : ¬ e.1.Same key' := fun h => he (h.trans hkey.symm)
          simp [hkey, hne]
        · simp [hkey]
  exact hslots r.slots

theorem slots_eq_nil (h : ∀ key s, r.slot? key ≠ some s) : r.slots = [] := by
  rw [List.eq_nil_iff_forall_not_mem]
  intro e he
  have hfound := lookup_eq_none.1 (Option.eq_none_iff_forall_ne_some.2 (h e.1)) e he
  exact hfound (.refl e.1)

theorem isCurrent_iff :
    r.isCurrent key g = true ↔ ∃ s, r.slot? key = some s ∧ s.generation = g := by
  simp [isCurrent, Option.any_eq_true]

/-! ### Keys -/

/-- No two slots are filed under one key. -/
def Distinct (r : Registry) : Prop := r.slots.Pairwise fun a b => ¬ a.1.Same b.1

theorem distinct_empty : Distinct empty := .nil

theorem Distinct.of_sublist (h : Distinct r) (hsub : r'.slots.Sublist r.slots) : Distinct r' :=
  List.Pairwise.sublist hsub h

theorem Distinct.fill (h : Distinct r) (key : ConnectionKey) (slot : Slot) :
    Distinct (r.fill key slot) := by
  unfold Registry.fill
  split
  · refine List.pairwise_map.2 (List.Pairwise.imp (fun {a b} hab => ?_) h)
    split <;> split <;> exact hab
  · next hnone =>
    refine List.pairwise_append.2 ⟨h, List.pairwise_singleton _ _, fun a ha b hb => ?_⟩
    obtain rfl := List.mem_singleton.1 hb
    have hfree : r.slot? key = none := by simpa using hnone
    exact lookup_eq_none.1 hfree a ha

/-- What is left of the slots is where it was. -/
theorem Distinct.lookup_of_sublist {slots slots' : List (ConnectionKey × Slot)}
    (h : slots.Pairwise fun a b => ¬ a.1.Same b.1) (hsub : slots'.Sublist slots)
    (hs : lookup slots' key = some s) : lookup slots key = some s := by
  induction hsub with
  | slnil => exact hs
  | cons e hsub ih =>
    obtain ⟨hne, hrest⟩ := List.pairwise_cons.1 h
    obtain ⟨e', he', hkey, -⟩ := exists_mem_of_lookup (ih hrest hs)
    rw [lookup_cons, if_neg fun hsame => hne e' he' (hsame.trans hkey.symm)]
    exact ih hrest hs
  | cons_cons e hsub ih =>
    rw [lookup_cons] at hs ⊢
    split at hs
    · next hsame => rwa [if_pos hsame]
    · next hsame =>
      rw [if_neg hsame]
      exact ih (List.pairwise_cons.1 h).2 hs

/-! ### Taking slots out -/

/-- Nothing was done but to take slots out, or to shut the registry down. -/
structure Trims (r r' : Registry) : Prop where
  slot? : ∀ key s, r'.slot? key = some s → r.slot? key = some s
  distinct : Distinct r → Distinct r'
  outcomes : r'.outcomes = r.outcomes
  nextGeneration : r'.nextGeneration = r.nextGeneration
  isShutDown : r.isShutDown = true → r'.isShutDown = true

theorem Trims.refl (r : Registry) : Trims r r :=
  ⟨fun _ _ h => h, fun h => h, rfl, rfl, fun h => h⟩

theorem trims_of_slots_eq (hslots : r'.slots = r.slots) (houtcomes : r'.outcomes = r.outcomes)
    (hnext : r'.nextGeneration = r.nextGeneration)
    (hdown : r.isShutDown = true → r'.isShutDown = true) : Trims r r' := by
  refine ⟨fun key s hs => ?_, fun h => ?_, houtcomes, hnext, hdown⟩
  · rwa [slot?_eq_lookup, hslots] at hs
  · rwa [Distinct, hslots]

theorem trims_of_sublist (h : Distinct r) {slots : List (ConnectionKey × Slot)}
    (hsub : slots.Sublist r.slots) : Trims r { r with slots } :=
  ⟨fun _ _ hs => Distinct.lookup_of_sublist h hsub hs, fun h => h.of_sublist hsub, rfl, rfl,
    fun h => h⟩

theorem trims_remove (h : Distinct r) (key : ConnectionKey) : Trims r (r.remove key) :=
  trims_of_sublist h List.filter_sublist

theorem trims_takeOut (h : Distinct r) (p : Slot → Bool) : Trims r (r.takeOut p).2 :=
  trims_of_sublist h List.filter_sublist

/-- A slot is left where it is, or its connection is among those that are given. -/
theorem slot?_takeOut (p : Slot → Bool) (hs : r.slot? key = some s) :
    (r.takeOut p).2.slot? key = some s ∨ ∀ i, s.connection? = some i → i ∈ (r.takeOut p).1 := by
  -- a slot that is left stays the first under its key
  have hleft (hp : p s = false) (slots : List (ConnectionKey × Slot))
      (hs : lookup slots key = some s) :
      lookup (slots.filter fun e => !p e.2) key = some s := by
    induction slots with
    | nil => exact hs
    | cons e slots ih =>
      rw [lookup_cons] at hs
      rw [List.filter_cons]
      split at hs
      · next hsame =>
        cases hs
        rw [if_pos (by rw [hp]; rfl), lookup_cons, if_pos hsame]
      · next hne =>
        split
        · rw [lookup_cons, if_neg hne]
          exact ih hs
        · exact ih hs
  cases hp : p s with
  | false => exact .inl (hleft hp r.slots hs)
  | true =>
    obtain ⟨e, he, -, rfl⟩ := exists_mem_of_lookup hs
    exact .inr fun i hi => List.mem_filterMap.2 ⟨e, List.mem_filter.2 ⟨he, hp⟩, hi⟩

theorem trims_takeEnded (h : Distinct r) (key : ConnectionKey) (g : Nat) :
    Trims r (r.takeEnded key g).2 := by
  unfold takeEnded
  split
  · split
    · exact trims_remove h key
    · exact .refl r
  · exact .refl r

theorem trims_settle_error (h : Distinct r) (key : ConnectionKey) (g : Nat) (name : String)
    (e : Failure) : Trims r (r.settle key g name (.error e)).2 := by
  change Trims r (if r.isCurrent key g then r.remove key else r)
  split
  · exact trims_remove h key
  · exact .refl r

/-- A creation that fails leaves no slot of its generation. -/
theorem isCurrent_settle_error (r : Registry) (key : ConnectionKey) (g : Nat) (name : String)
    (e : Failure) : (r.settle key g name (.error e)).2.isCurrent key g = false := by
  change (if r.isCurrent key g then r.remove key else r).isCurrent key g = false
  split
  · rw [isCurrent, slot?_remove, if_pos (.refl key)]
    rfl
  · next h => exact Bool.not_eq_true _ ▸ h

/-- A creation that has come to its connection keeps it, or changes nothing. -/
theorem settle_ok_cases (r : Registry) (key : ConnectionKey) (g : Nat) (name : String) (i : Nat) :
    (r.isCurrent key g = true ∧ r.isShutDown = false ∧
      r.settle key g name (.ok i) = (true, r.fill key (.ready g name i))) ∨
    ((r.isCurrent key g = false ∨ r.isShutDown = true) ∧
      r.settle key g name (.ok i) = (false, r)) := by
  by_cases hkeep : (r.isCurrent key g && !r.isShutDown) = true
  · have hcond := hkeep
    rw [Bool.and_eq_true, Bool.not_eq_true'] at hcond
    exact .inl ⟨hcond.1, hcond.2, if_pos hkeep⟩
  · have hcond := hkeep
    rw [Bool.and_eq_true, not_and_or, Bool.not_eq_true, Bool.not_eq_true',
      Bool.not_eq_false] at hcond
    exact .inr ⟨hcond, if_neg hkeep⟩

/-! ### Slots of other generations -/

/-- The slots of other generations are as they were. -/
def SparesOthers (g : Nat) (r r' : Registry) : Prop :=
  ∀ key s, r.slot? key = some s → s.generation ≠ g → r'.slot? key = some s

theorem SparesOthers.refl (g : Nat) (r : Registry) : SparesOthers g r r := fun _ _ h _ => h

theorem sparesOthers_of_slots_eq (h : r'.slots = r.slots) : SparesOthers g r r' := by
  intro key s hs _
  rwa [slot?_eq_lookup, h]

/-- The slot of a key is the only one that is changed under the key. -/
theorem not_same_of_isCurrent (hcurrent : r.isCurrent key g = true)
    (hs : r.slot? key' = some s) (hne : s.generation ≠ g) : ¬ key.Same key' := by
  intro hsame
  obtain ⟨s', hs', hg⟩ := isCurrent_iff.1 hcurrent
  rw [slot?_congr r hsame, hs] at hs'
  cases hs'
  exact hne hg

theorem sparesOthers_fill (hcurrent : r.isCurrent key g = true) (slot : Slot) :
    SparesOthers g r (r.fill key slot) := by
  intro key' s hs hne
  rw [slot?_fill, if_neg (not_same_of_isCurrent hcurrent hs hne), hs]

theorem sparesOthers_remove (hcurrent : r.isCurrent key g = true) :
    SparesOthers g r (r.remove key) := by
  intro key' s hs hne
  rw [slot?_remove, if_neg (not_same_of_isCurrent hcurrent hs hne), hs]

theorem sparesOthers_settle (r : Registry) (key : ConnectionKey) (g : Nat) (name : String)
    (created : Except Failure Nat) : SparesOthers g r (r.settle key g name created).2 := by
  unfold settle
  split
  · split
    · next h =>
      rw [Bool.and_eq_true] at h
      exact sparesOthers_fill h.1 _
    · exact .refl g r
  · simp only
    split
    · next h => exact sparesOthers_remove h
    · exact .refl g r

theorem sparesOthers_takeEnded (r : Registry) (key : ConnectionKey) (g : Nat) :
    SparesOthers g r (r.takeEnded key g).2 := by
  unfold takeEnded
  split
  · next g' name i hslot =>
    split
    · next hg => exact sparesOthers_remove (isCurrent_iff.2 ⟨_, hslot, hg⟩)
    · exact .refl g r
  · exact .refl g r

end Registry

end LspClient
