import LspClient.Diagnostic.Report
import Mathlib.Data.List.Basic
import Mathlib.Data.List.Nodup

/-!
# What merging keeps, and in which order

`merge` keeps of every range and message the first diagnostic, sorted by severity and start, where
those that agree in both stay in the order in which they were listed (`StableFirsts`). This leaves
only one list to be (`StableFirsts.eq`), and it hangs on nothing of the diagnostics but which are
the first ones, and their order where they agree (`SameFirsts`). So diagnostics that are merged may
be merged beforehand in parts (`merge_stableFirsts`).
-/

namespace LspClient.Diagnostic

variable {xs xs' ys ys' merged merged' : List Diagnostic} {a b d : Diagnostic}

/-! ### The order -/

/-- Worse severities stand first, then earlier starts, and of these lines count before columns. -/
def Precedes (a b : Diagnostic) : Prop :=
  a.severity.rank < b.severity.rank ∨ a.severity = b.severity ∧
    (a.range.start.line < b.range.start.line ∨ a.range.start.line = b.range.start.line ∧
      a.range.start.character < b.range.start.character)

/-- Neither precedes the other. -/
def Ties (a b : Diagnostic) : Prop := a.severity = b.severity ∧ a.range.start = b.range.start

instance (a b : Diagnostic) : Decidable (Ties a b) := inferInstanceAs (Decidable (_ ∧ _))

theorem Ties.refl (d : Diagnostic) : Ties d d := ⟨rfl, rfl⟩

theorem rank_inj {s t : Severity} : s.rank = t.rank ↔ s = t := by
  cases s <;> cases t <;> decide

theorem before_iff : a.before b = true ↔ a.severity.rank < b.severity.rank ∨
    a.severity.rank = b.severity.rank ∧ (a.range.start.line < b.range.start.line ∨
      a.range.start.line = b.range.start.line ∧
        a.range.start.character ≤ b.range.start.character) := by
  simp [before, Position.le]

theorem before_trans (a b c : Diagnostic) (hab : a.before b = true) (hbc : b.before c = true) :
    a.before c = true := by
  rw [before_iff] at *
  simp only [UInt32.lt_iff_toNat_lt, UInt32.le_iff_toNat_le, ← UInt32.toNat_inj] at *
  omega

theorem before_total (a b : Diagnostic) : (a.before b || b.before a) = true := by
  rw [Bool.or_eq_true, before_iff, before_iff]
  simp only [UInt32.lt_iff_toNat_lt, UInt32.le_iff_toNat_le, ← UInt32.toNat_inj]
  omega

theorem precedes_or_ties (h : a.before b = true) : Precedes a b ∨ Ties a b := by
  rw [before_iff, rank_inj] at h
  rcases h with hrank | ⟨hseverity, hline | ⟨hline, hcharacter⟩⟩
  · exact .inl (.inl hrank)
  · exact .inl (.inr ⟨hseverity, .inl hline⟩)
  · rcases UInt32.lt_or_eq_of_le hcharacter with hlt | heq
    · exact .inl (.inr ⟨hseverity, .inr ⟨hline, hlt⟩⟩)
    · refine .inr ⟨hseverity, ?_⟩
      cases hs : a.range.start
      cases ht : b.range.start
      rw [hs, ht] at hline heq
      cases hline
      cases heq
      rfl

theorem Ties.before (h : Ties a b) : a.before b = true := by
  rw [before_iff, h.1, h.2]
  exact .inr ⟨rfl, .inr ⟨rfl, UInt32.le_refl _⟩⟩

theorem Precedes.not_before (h : Precedes a b) : ¬ b.before a = true := by
  unfold Precedes at h
  rw [← rank_inj] at h
  rw [before_iff]
  simp only [UInt32.lt_iff_toNat_lt, UInt32.le_iff_toNat_le, ← UInt32.toNat_inj] at *
  omega

theorem Precedes.before (h : Precedes a b) : a.before b = true := by
  have htotal := before_total a b
  rwa [Bool.or_eq_true, or_iff_left h.not_before] at htotal

/-! ### Specification -/

/-- `merged` holds the first diagnostic of each spot that occurs in `xs`, and nothing else. Those
that agree in severity and start are in the order of `xs`. -/
structure StableFirsts (xs merged : List Diagnostic) : Prop where
  firsts : ∀ s, merged.filter (·.spot = s) = (xs.find? (·.spot = s)).toList
  ordered : merged.Pairwise fun a b => Precedes a b ∨ Ties a b ∧ xs.idxOf a < xs.idxOf b

namespace StableFirsts

theorem mem_iff (h : StableFirsts xs merged) :
    d ∈ merged ↔ xs.find? (·.spot = d.spot) = some d := by
  rw [← Option.mem_toList, ← h.firsts]
  simp

theorem find? (h : StableFirsts xs merged) (s : Range × String) :
    merged.find? (·.spot = s) = xs.find? (·.spot = s) := by
  rw [← List.head?_filter, h.firsts]
  cases xs.find? (·.spot = s) <;> rfl

theorem distinct (h : StableFirsts xs merged) : merged.Pairwise fun a b => a.spot ≠ b.spot := by
  rw [List.pairwise_iff_forall_sublist]
  intro a b hab hspot
  have hboth := hab.filter (·.spot = b.spot)
  rw [h.firsts] at hboth
  have hlength := hboth.length_le
  cases hfind : xs.find? (·.spot = b.spot) <;> simp [hfind, hspot] at hlength

theorem nodup (h : StableFirsts xs merged) : merged.Nodup :=
  h.distinct.imp fun hspot heq => hspot (congrArg spot heq)

/-- Two diagnostics cannot be in order both ways round. -/
theorem unordered (hab : Precedes a b ∨ Ties a b ∧ xs.idxOf a < xs.idxOf b) :
    ¬ (Precedes b a ∨ Ties b a ∧ xs.idxOf b < xs.idxOf a) := by
  rcases hab with hab | ⟨hties, hlt⟩
  · rintro (hba | ⟨hties, -⟩)
    · exact hba.not_before hab.before
    · exact hab.not_before hties.before
  · rintro (hba | ⟨-, hlt'⟩)
    · exact hba.not_before hties.before
    · omega

/-- The diagnostics that are left, and their order, are determined. -/
theorem eq (h : StableFirsts xs merged) (h' : StableFirsts xs merged') : merged = merged' := by
  refine List.Perm.eq_of_pairwise (fun a b _ _ hab hba => absurd hba (unordered hab))
    h.ordered h'.ordered ((List.perm_ext_iff_of_nodup h.nodup h'.nodup).2 fun d => ?_)
  rw [h.mem_iff, h'.mem_iff]

/-- Of two that are left and agree, the one that stands first in the result does so in the list. -/
theorem idxOf_lt (h : StableFirsts xs merged) (hties : Ties a b) (hb : b ∈ merged)
    (hlt : merged.idxOf a < merged.idxOf b) : xs.idxOf a < xs.idxOf b := by
  have hb' := List.idxOf_lt_length_of_mem hb
  have hab := List.pairwise_iff_getElem.1 h.ordered _ _ (Nat.lt_trans hlt hb') hb' hlt
  rw [List.getElem_idxOf, List.getElem_idxOf] at hab
  exact (hab.resolve_left fun hab => hab.not_before
    (Ties.before ⟨hties.1.symm, hties.2.symm⟩)).2

end StableFirsts

/-! ### Merging -/

theorem filter_firstsAfter (seen : List (Range × String)) (xs : List Diagnostic)
    (s : Range × String) : (firstsAfter seen xs).filter (·.spot = s) =
      if s ∈ seen then [] else (xs.find? (·.spot = s)).toList := by
  induction xs generalizing seen with
  | nil => simp [firstsAfter]
  | cons d rest ih =>
    by_cases hd : d.spot = s
    · subst hd
      rw [firstsAfter]
      split
      · next hseen => rw [ih, if_pos hseen]
      · next hnew => simp [ih]
    · have hs : s ≠ d.spot := Ne.symm hd
      rw [firstsAfter]
      split
      · rw [ih, List.find?_cons_of_neg (by simpa using hd)]
      · rw [List.filter_cons_of_neg (by simpa using hd), ih,
          List.find?_cons_of_neg (by simpa using hd)]
        simp [hs]

theorem spot_notMem_of_firstsAfter {seen : List (Range × String)}
    (hd : d ∈ firstsAfter seen xs) : d.spot ∉ seen := by
  intro hseen
  have hmem : d ∈ (firstsAfter seen xs).filter (·.spot = d.spot) := by simpa using hd
  rw [filter_firstsAfter, if_pos hseen] at hmem
  cases hmem

/-- Those that are left stand where they stood. -/
theorem pairwise_firstsAfter (seen : List (Range × String)) (xs : List Diagnostic) :
    (firstsAfter seen xs).Pairwise fun a b => xs.idxOf a < xs.idxOf b := by
  induction xs generalizing seen with
  | nil => exact .nil
  | cons d rest ih =>
    -- what is left of the rest stands behind `d`, as it is at another spot
    have hskip {seen : List (Range × String)} (hseen : d.spot ∈ seen) :
        (firstsAfter seen rest).Pairwise fun a b => (d :: rest).idxOf a < (d :: rest).idxOf b := by
      refine (ih seen).imp_of_mem fun {a b} ha hb hlt => ?_
      have hne {e : Diagnostic} (he : e ∈ firstsAfter seen rest) : d ≠ e := by
        rintro rfl
        exact spot_notMem_of_firstsAfter he hseen
      rw [List.idxOf_cons_ne _ (hne ha), List.idxOf_cons_ne _ (hne hb)]
      omega
    rw [firstsAfter]
    split
    · next hseen => exact hskip hseen
    · refine List.pairwise_cons.2 ⟨fun e he => ?_, hskip (List.mem_cons_self ..)⟩
      have hne : d ≠ e := by
        rintro rfl
        exact spot_notMem_of_firstsAfter he (List.mem_cons_self ..)
      rw [List.idxOf_cons_self, List.idxOf_cons_ne _ hne]
      omega

theorem filter_merge (xs : List Diagnostic) (s : Range × String) :
    (merge xs).filter (·.spot = s) = (xs.find? (·.spot = s)).toList := by
  have hfirsts : (firsts xs).filter (·.spot = s) = (xs.find? (·.spot = s)).toList := by
    rw [firsts, filter_firstsAfter, if_neg List.not_mem_nil]
  have hperm := (List.mergeSort_perm (firsts xs) before).filter (·.spot = s)
  rw [hfirsts] at hperm
  cases hfind : xs.find? (·.spot = s) with
  | none =>
    rw [hfind] at hperm
    exact hperm.eq_nil
  | some d =>
    rw [hfind] at hperm
    exact List.perm_singleton.1 hperm

/-- Sorting leaves those that agree in the order in which they were. -/
theorem filter_ties_merge (xs : List Diagnostic) (d : Diagnostic) :
    (merge xs).filter (Ties · d) = (firsts xs).filter (Ties · d) := by
  have hsorted : ((firsts xs).filter (Ties · d)).Pairwise fun a b => a.before b = true := by
    refine List.pairwise_of_forall_mem_list fun a ha b hb => ?_
    have hties : Ties a d := by simpa using (List.mem_filter.1 ha).2
    have hties' : Ties b d := by simpa using (List.mem_filter.1 hb).2
    exact Ties.before ⟨hties.1.trans hties'.1.symm, hties.2.trans hties'.2.symm⟩
  have hkept : ((firsts xs).filter (Ties · d)).Sublist ((merge xs).filter (Ties · d)) := by
    simpa [merge] using (List.sublist_mergeSort before_trans before_total hsorted
      List.filter_sublist).filter (Ties · d)
  have hperm := (List.mergeSort_perm (firsts xs) before).filter (Ties · d)
  exact (hkept.eq_of_length hperm.length_eq.symm).symm

theorem stableFirsts_of_merge (xs : List Diagnostic) : StableFirsts xs (merge xs) where
  firsts := filter_merge xs
  ordered := by
    rw [List.pairwise_iff_forall_sublist]
    intro a b hab
    have hbefore := List.pairwise_iff_forall_sublist.1
      (List.pairwise_mergeSort before_trans before_total (firsts xs)) hab
    refine (precedes_or_ties hbefore).imp_right fun hties => ⟨hties, ?_⟩
    have hfirsts : [a, b].Sublist (firsts xs) := by
      have htied := hab.filter (Ties · b)
      rw [filter_ties_merge, List.filter_eq_self.2 (by simp [hties, Ties.refl b])] at htied
      exact htied.trans List.filter_sublist
    exact List.pairwise_iff_forall_sublist.1 (pairwise_firstsAfter [] xs) hfirsts

/-! ### Merging in parts -/

/-- The first diagnostic of its spot. -/
def IsFirst (xs : List Diagnostic) (d : Diagnostic) : Prop :=
  xs.find? (·.spot = d.spot) = some d

/-- The lists have the same first diagnostics, which stand in the same order where they agree. -/
structure SameFirsts (xs xs' : List Diagnostic) : Prop where
  find? : ∀ s, xs'.find? (·.spot = s) = xs.find? (·.spot = s)
  idxOf_lt : ∀ {a b}, IsFirst xs' a → IsFirst xs' b → Ties a b → xs'.idxOf a < xs'.idxOf b →
    xs.idxOf a < xs.idxOf b

theorem SameFirsts.refl (xs : List Diagnostic) : SameFirsts xs xs := ⟨fun _ => rfl, fun _ _ _ => id⟩

theorem StableFirsts.sameFirsts (h : StableFirsts xs merged) : SameFirsts xs merged where
  find? := h.find?
  idxOf_lt _ hb hties hlt := h.idxOf_lt hties (List.mem_of_find?_eq_some hb) hlt

theorem IsFirst.append_cases (h : IsFirst (xs ++ ys) d) :
    IsFirst xs d ∨ xs.find? (·.spot = d.spot) = none ∧ IsFirst ys d := by
  rw [IsFirst, List.find?_append, Option.or_eq_some_iff] at h
  exact h

theorem IsFirst.idxOf_append (h : IsFirst xs d) (ys : List Diagnostic) :
    (xs ++ ys).idxOf d = xs.idxOf d ∧ xs.idxOf d < xs.length :=
  have hmem := List.mem_of_find?_eq_some h
  ⟨List.idxOf_append_of_mem hmem, List.idxOf_lt_length_of_mem hmem⟩

theorem idxOf_append_of_none (h : xs.find? (·.spot = d.spot) = none) (ys : List Diagnostic) :
    (xs ++ ys).idxOf d = xs.length + ys.idxOf d :=
  List.idxOf_append_of_notMem fun hmem => by simpa using List.find?_eq_none.1 h d hmem

theorem SameFirsts.append (h : SameFirsts xs xs') (h' : SameFirsts ys ys') :
    SameFirsts (xs ++ ys) (xs' ++ ys') where
  find? s := by rw [List.find?_append, List.find?_append, h.find?, h'.find?]
  idxOf_lt {a b} ha hb hties hlt := by
    have hfirst {d : Diagnostic} (hd : IsFirst xs' d) : IsFirst xs d := (h.find? _).symm.trans hd
    -- the first at a spot is the first of the front, or of the back if the front has none
    rcases ha.append_cases with ha | ⟨hnone, ha⟩ <;> rcases hb.append_cases with hb | ⟨hnone', hb⟩
    · rw [(ha.idxOf_append ys').1, (hb.idxOf_append ys').1] at hlt
      rw [((hfirst ha).idxOf_append ys).1, ((hfirst hb).idxOf_append ys).1]
      exact h.idxOf_lt ha hb hties hlt
    · have hlength := (hfirst ha).idxOf_append ys
      rw [h.find?] at hnone'
      rw [hlength.1, idxOf_append_of_none hnone']
      omega
    · rw [idxOf_append_of_none hnone, (hb.idxOf_append ys').1] at hlt
      have hlength := (hb.idxOf_append ys').2
      omega
    · rw [idxOf_append_of_none hnone, idxOf_append_of_none hnone'] at hlt
      rw [h.find?] at hnone hnone'
      rw [idxOf_append_of_none hnone, idxOf_append_of_none hnone']
      have hlt' := h'.idxOf_lt ha hb hties (by omega)
      omega

/-- What is left of one list is left of the other. -/
theorem SameFirsts.stableFirsts (h : SameFirsts xs xs') (hmerged : StableFirsts xs' merged) :
    StableFirsts xs merged where
  firsts s := by rw [hmerged.firsts, h.find?]
  ordered := hmerged.ordered.imp_of_mem fun ha hb hab => hab.imp_right fun ⟨hties, hlt⟩ =>
    ⟨hties, h.idxOf_lt (hmerged.mem_iff.1 ha) (hmerged.mem_iff.1 hb) hties hlt⟩

theorem SameFirsts.merge_eq (h : SameFirsts xs xs') : merge xs' = merge xs :=
  (h.stableFirsts (stableFirsts_of_merge xs')).eq (stableFirsts_of_merge xs)

/-- Merging leaves the first diagnostic of each range and message, by severity and start and else as
they were listed; what is merged may have been merged in parts before. -/
theorem merge_stableFirsts (xs ys : List Diagnostic) :
    StableFirsts xs (merge xs) ∧
      merge (merge xs ++ ys) = merge (xs ++ ys) ∧
      merge (xs ++ merge ys) = merge (xs ++ ys) ∧
      merge (merge xs) = merge xs := by
  have hsame (zs : List Diagnostic) : SameFirsts zs (merge zs) :=
    (stableFirsts_of_merge zs).sameFirsts
  exact ⟨stableFirsts_of_merge xs, ((hsame xs).append (.refl ys)).merge_eq,
    ((SameFirsts.refl xs).append (hsame ys)).merge_eq, (hsame xs).merge_eq⟩

end LspClient.Diagnostic
