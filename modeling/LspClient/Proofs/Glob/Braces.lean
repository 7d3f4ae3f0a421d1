import LspClient.Proofs.Glob.Splitting
import LspClient.Proofs.Text.Trimming

/-!
# Braces

Braces are read from left to right: a closing brace goes with the last opening one that is still
open, and closes nothing when there is none (`braces`). All of them are closed when every opening
brace has a closing brace of its own behind it (`Closed`).

A pattern gets as many closing braces as there are fewer of them than of opening ones. That closes
all groups only if no closing brace stands where nothing is open, since such a brace is counted as
if it closed one: of the open groups as many are left as there are such braces
(`braces_closeBraces`).
-/

namespace LspClient.Glob

/-! ### Reading braces -/

/-- What is left of the braces that were read. -/
structure Braces where
  /-- The opening braces that wait for theirs. -/
  unclosed : Nat
  /-- The closing braces that came where nothing was open. -/
  unopened : Nat
  deriving DecidableEq, Repr

namespace Braces

def read (b : Braces) (c : Char) : Braces :=
  if c = '{' then ⟨b.unclosed + 1, b.unopened⟩
  else if c = '}' then
    if b.unclosed = 0 then ⟨0, b.unopened + 1⟩ else ⟨b.unclosed - 1, b.unopened⟩
  else b

@[simp] theorem read_open (b : Braces) : b.read '{' = ⟨b.unclosed + 1, b.unopened⟩ := rfl

@[simp] theorem read_close_zero (s : Nat) : (⟨0, s⟩ : Braces).read '}' = ⟨0, s + 1⟩ := rfl

@[simp] theorem read_close_succ (n s : Nat) : (⟨n + 1, s⟩ : Braces).read '}' = ⟨n, s⟩ := rfl

theorem read_of_ne (b : Braces) {c : Char} (hopen : c ≠ '{') (hclose : c ≠ '}') :
    b.read c = b := by
  rw [read, if_neg hopen, if_neg hclose]

end Braces

def isBrace (c : Char) : Bool := c = '{' || c = '}'

/-- What is left of the braces of a text. -/
def braces (cs : List Char) : Braces := cs.foldl Braces.read ⟨0, 0⟩

variable {cs inner rest : List Char} {b : Braces} {c : Char} {n s : Nat}

/-- Nothing but the braces counts. -/
theorem foldl_read_filter (cs : List Char) (b : Braces) :
    (cs.filter isBrace).foldl Braces.read b = cs.foldl Braces.read b := by
  induction cs generalizing b with
  | nil => rfl
  | cons c cs ih =>
    by_cases hc : isBrace c = true
    · rw [List.filter_cons_of_pos hc, List.foldl_cons, List.foldl_cons, ih]
    · have hne : c ≠ '{' ∧ c ≠ '}' := by simpa [isBrace] using hc
      rw [List.filter_cons_of_neg hc, List.foldl_cons, Braces.read_of_ne b hne.1 hne.2, ih]

theorem braces_congr {ds : List Char} (h : cs.filter isBrace = ds.filter isBrace) :
    braces cs = braces ds := by
  rw [braces, braces, ← foldl_read_filter cs, ← foldl_read_filter ds, h]

/-- The braces that are left over make up for the difference in number. -/
theorem count_add_unopened (cs : List Char) (b : Braces) :
    b.unclosed + cs.count '{' + (cs.foldl Braces.read b).unopened =
      (cs.foldl Braces.read b).unclosed + cs.count '}' + b.unopened := by
  induction cs generalizing b with
  | nil => simp
  | cons c cs ih =>
    have hrest := ih (b.read c)
    rw [List.foldl_cons]
    obtain ⟨n, s⟩ := b
    by_cases hopen : c = '{'
    · subst hopen
      simp at hrest ⊢
      omega
    by_cases hclose : c = '}'
    · subst hclose
      cases n with
      | zero =>
        simp at hrest ⊢
        omega
      | succ n =>
        simp at hrest ⊢
        omega
    · rw [Braces.read_of_ne _ hopen hclose] at hrest ⊢
      simp [hopen, hclose]
      omega

theorem foldl_read_replicate (n s k : Nat) (h : k ≤ n) :
    (List.replicate k '}').foldl Braces.read ⟨n, s⟩ = ⟨n - k, s⟩ := by
  induction k generalizing n with
  | zero => rfl
  | succ k ih =>
    obtain ⟨n, rfl⟩ : ∃ m, n = m + 1 := ⟨n - 1, by omega⟩
    rw [List.replicate_succ, List.foldl_cons, Braces.read_close_succ, ih n (by omega)]
    congr 1
    omega

/-- A brace that closes nothing stands for one that is missing. -/
theorem missing_eq (cs : List Char) :
    cs.count '{' - cs.count '}' = (braces cs).unclosed - (braces cs).unopened := by
  have hcount : cs.count '{' + (braces cs).unopened = (braces cs).unclosed + cs.count '}' := by
    simpa [braces] using count_add_unopened cs ⟨0, 0⟩
  omega

/-- Of the groups that are open as many stay open as there are braces that close nothing. -/
theorem braces_closeBraces (cs : List Char) :
    braces (closeBraces cs) =
      ⟨min (braces cs).unclosed (braces cs).unopened, (braces cs).unopened⟩ := by
  have happend : braces (closeBraces cs) =
      (List.replicate (cs.count '{' - cs.count '}') '}').foldl Braces.read (braces cs) :=
    List.foldl_append
  rw [happend, missing_eq]
  have hfold := foldl_read_replicate (braces cs).unclosed (braces cs).unopened
    ((braces cs).unclosed - (braces cs).unopened) (by omega)
  rw [hfold]
  congr 1
  omega

/-! ### Closed groups -/

/-- Every opening brace has a closing brace of its own behind it. -/
inductive Closed : List Char → Prop
  | nil : Closed []
  | cons {c : Char} {cs : List Char} (hc : c ≠ '{') (hcs : Closed cs) : Closed (c :: cs)
  | group {inner rest : List Char} (hinner : Closed inner) (hrest : Closed rest) :
    Closed ('{' :: inner ++ '}' :: rest)

theorem unclosed_read_le (b : Braces) (hc : c ≠ '{') : (b.read c).unclosed ≤ b.unclosed := by
  rw [Braces.read, if_neg hc]
  split
  · split
    · exact Nat.zero_le _
    · exact Nat.sub_le _ _
  · exact Nat.le_refl _

/-- A text in which all is closed leaves no more open than was open before. -/
theorem Closed.unclosed_le (h : Closed cs) (b : Braces) :
    (cs.foldl Braces.read b).unclosed ≤ b.unclosed := by
  induction h generalizing b with
  | nil => exact Nat.le_refl _
  | cons hc _ ih => exact (ih _).trans (unclosed_read_le b hc)
  | @group inner rest _ _ ihinner ihrest =>
    have hinner := ihinner (b.read '{')
    rw [List.cons_append, List.foldl_cons, List.foldl_append, List.foldl_cons]
    refine (ihrest _).trans ?_
    generalize inner.foldl Braces.read (b.read '{') = between at hinner ⊢
    obtain ⟨n, s⟩ := between
    cases n with
    | zero => exact Nat.zero_le _
    | succ n => exact Nat.le_of_succ_le_succ hinner

/-- Where a group is closed in the end, there is the brace that closes it. The induction is on the
length: behind a group inside this one the search goes on. -/
theorem exists_closing (h : (cs.foldl Braces.read ⟨n + 1, s⟩).unclosed ≤ n) :
    ∃ inner rest, cs = inner ++ '}' :: rest ∧ Closed inner ∧
      rest.foldl Braces.read ⟨n, s⟩ = cs.foldl Braces.read ⟨n + 1, s⟩ := by
  induction hlength : cs.length using Nat.strong_induction_on generalizing cs n with
  | h length ih =>
    cases cs with
    | nil =>
      simp at h
    | cons c cs =>
      rw [List.foldl_cons] at h ⊢
      rw [List.length_cons] at hlength
      by_cases hopen : c = '{'
      · subst hopen
        obtain ⟨inner, rest, rfl, hinner, hrest⟩ :=
          ih cs.length (by omega) (n := n + 1) (Nat.le_succ_of_le h) rfl
        rw [Braces.read_open, ← hrest] at h
        rw [List.length_append, List.length_cons] at hlength
        obtain ⟨inner', rest', rfl, hinner', hrest'⟩ := ih rest.length (by omega) h rfl
        refine ⟨'{' :: inner ++ '}' :: inner', rest', by simp, .group hinner hinner', ?_⟩
        rw [hrest', hrest, Braces.read_open]
      by_cases hclose : c = '}'
      · subst hclose
        exact ⟨[], cs, rfl, .nil, rfl⟩
      · rw [Braces.read_of_ne _ hopen hclose] at h ⊢
        obtain ⟨inner, rest, rfl, hinner, hrest⟩ := ih cs.length (by omega) h rfl
        exact ⟨c :: inner, rest, rfl, .cons hopen hinner, hrest⟩

theorem closed_of_unclosed (h : (cs.foldl Braces.read ⟨0, s⟩).unclosed = 0) : Closed cs := by
  induction hlength : cs.length using Nat.strong_induction_on generalizing cs s with
  | h length ih =>
    cases cs with
    | nil => exact .nil
    | cons c cs =>
      rw [List.foldl_cons] at h
      rw [List.length_cons] at hlength
      by_cases hopen : c = '{'
      · subst hopen
        obtain ⟨inner, rest, rfl, hinner, hrest⟩ := exists_closing (n := 0) (Nat.le_of_eq h)
        rw [Braces.read_open, ← hrest] at h
        rw [List.length_append, List.length_cons] at hlength
        exact .group hinner (ih rest.length (by omega) h rfl)
      · have hread : ∃ s', (⟨0, s⟩ : Braces).read c = ⟨0, s'⟩ := by
          by_cases hclose : c = '}'
          · exact ⟨s + 1, by rw [hclose, Braces.read_close_zero]⟩
          · exact ⟨s, Braces.read_of_ne _ hopen hclose⟩
        obtain ⟨s', hread⟩ := hread
        rw [hread] at h
        exact .cons hopen (ih cs.length (by omega) h rfl)

theorem closed_iff : Closed cs ↔ (braces cs).unclosed = 0 :=
  ⟨fun h => Nat.le_zero.1 (h.unclosed_le ⟨0, 0⟩), closed_of_unclosed⟩

instance (cs : List Char) : Decidable (Closed cs) := decidable_of_iff _ closed_iff.symm

theorem unopened_le_foldl (cs : List Char) (b : Braces) :
    b.unopened ≤ (cs.foldl Braces.read b).unopened := by
  induction cs generalizing b with
  | nil => exact Nat.le_refl _
  | cons c cs ih =>
    refine Nat.le_trans ?_ (ih (b.read c))
    unfold Braces.read
    split
    · exact Nat.le_refl _
    · split
      · split
        · exact Nat.le_succ _
        · exact Nat.le_refl _
      · exact Nat.le_refl _

/-- No closing brace stands where nothing is open, when at no point there were more of them than of
opening ones. -/
theorem unopened_eq_iff : (cs.foldl Braces.read b).unopened = b.unopened ↔
    ∀ front, front <+: cs → front.count '}' ≤ b.unclosed + front.count '{' := by
  constructor
  · rintro h front ⟨back, rfl⟩
    have hcount := count_add_unopened front b
    have hfront := unopened_le_foldl front b
    have hback := unopened_le_foldl back (front.foldl Braces.read b)
    rw [List.foldl_append] at h
    omega
  -- by induction on the text, with the braces that are open when it begins
  · intro h
    induction cs generalizing b with
    | nil => rfl
    | cons c cs ih =>
      obtain ⟨n, s⟩ := b
      have hcons (front : List Char) (hfront : front <+: cs) := h (c :: front)
        (List.prefix_cons_inj c |>.2 hfront)
      rw [List.foldl_cons]
      by_cases hopen : c = '{'
      · subst hopen
        refine ih fun front hfront => ?_
        have hle := hcons front hfront
        simp at hle ⊢
        omega
      by_cases hclose : c = '}'
      · subst hclose
        cases n with
        | zero =>
          have hle := hcons [] (List.nil_prefix)
          simp at hle
        | succ n =>
          refine ih fun front hfront => ?_
          have hle := hcons front hfront
          simp at hle ⊢
          omega
      · rw [Braces.read_of_ne _ hopen hclose]
        refine ih fun front hfront => ?_
        have hle := hcons front hfront
        simpa [hopen, hclose] using hle

/-! ### Spelling -/

/-- A typed pattern with slashes for backslashes, at any depth if it has none, before its braces
are closed. -/
def spelled (cs : List Char) : List Char :=
  let cs := (Text.trimChars cs).map fun c => if c = '\\' then '/' else c
  if cs.contains '/' || ['*', '*'].isPrefixOf cs then cs else '*' :: '*' :: '/' :: cs

theorem toList_normalize (typed : String) :
    (normalize typed).toList = closeBraces (spelled typed.toList) :=
  String.toList_ofList

theorem filter_isBrace_spelled (cs : List Char) :
    (spelled cs).filter isBrace = cs.filter isBrace := by
  have hblank : ∀ c : Char, Text.blank c = true → isBrace c = false := by
    intro c hc
    by_contra hbrace
    have hcases : c = '{' ∨ c = '}' := by simpa [isBrace, or_iff_not_imp_left] using hbrace
    rcases hcases with rfl | rfl <;> revert hc <;> decide
  have htrim : (Text.trimChars cs).filter isBrace = cs.filter isBrace := by
    obtain ⟨front, tail, hcs, hfront, htail⟩ := Text.trimChars_spec cs
    have hnone {ds : List Char} (hds : ∀ c ∈ ds, Text.blank c = true) : ds.filter isBrace = [] :=
      List.filter_eq_nil_iff.2 fun c hc => by simp [hblank c (hds c hc)]
    conv_rhs => rw [hcs]
    rw [List.filter_append, List.filter_append, hnone hfront, hnone htail, List.nil_append,
      List.append_nil]
  have hmap (ds : List Char) : (ds.map fun c => if c = '\\' then '/' else c).filter isBrace =
      ds.filter isBrace := by
    induction ds with
    | nil => rfl
    | cons c ds ih =>
      by_cases hc : c = '\\'
      · subst hc
        simpa [isBrace] using ih
      · rw [List.map_cons, if_neg hc, List.filter_cons, List.filter_cons, ih]
  unfold spelled
  dsimp only
  split
  · rw [hmap, htrim]
  · rw [← htrim, ← hmap (Text.trimChars cs)]
    rfl

theorem braces_spelled (cs : List Char) : braces (spelled cs) = braces cs :=
  braces_congr (filter_isBrace_spelled cs)

/-- A pattern that is spelled as it is matched. -/
structure IsSpelled (cs : List Char) : Prop where
  trimmed : Text.Trimmed cs
  slashes : '\\' ∉ cs
  anchored : (cs.contains '/' || ['*', '*'].isPrefixOf cs) = true

theorem IsSpelled.spelled_eq (h : IsSpelled cs) : spelled cs = cs := by
  have hmap : cs.map (fun c => if c = '\\' then '/' else c) = cs := by
    conv_rhs => rw [← List.map_id cs]
    refine List.map_congr_left fun c hc => if_neg ?_
    rintro rfl
    exact h.slashes hc
  unfold spelled
  simp only [h.trimmed.trimChars_eq, hmap, h.anchored, if_true]

theorem trimmed_map_slash (h : Text.Trimmed cs) :
    Text.Trimmed (cs.map fun c => if c = '\\' then '/' else c) := by
  have hslash {c : Char} (hc : Text.blank c = false) :
      Text.blank (if c = '\\' then '/' else c) = false := by
    split
    · decide
    · exact hc
  constructor
  · intro c hc
    rw [List.head?_map] at hc
    obtain ⟨d, hd, rfl⟩ := Option.map_eq_some_iff.1 hc
    exact hslash (h.first d hd)
  · intro c hc
    rw [List.getLast?_map] at hc
    obtain ⟨d, hd, rfl⟩ := Option.map_eq_some_iff.1 hc
    exact hslash (h.last d hd)

theorem isSpelled_spelled (cs : List Char) : IsSpelled (spelled cs) where
  trimmed := by
    have htrimmed := trimmed_map_slash (Text.trimmed_trimChars cs)
    unfold spelled
    dsimp only
    generalize (Text.trimChars cs).map (fun c => if c = '\\' then '/' else c) = ds at *
    split
    · exact htrimmed
    · refine ⟨?_, ?_⟩
      · rintro c ⟨⟩
        rfl
      · intro c hc
        cases ds with
        | nil =>
          cases hc
          rfl
        | cons d ds =>
          rw [List.getLast?_cons_cons, List.getLast?_cons_cons, List.getLast?_cons_cons] at hc
          exact htrimmed.last c hc
  slashes := by
    have h := backslash_notMem_normalize (String.ofList cs)
    rw [toList_normalize, String.toList_ofList] at h
    exact fun hc => h (List.mem_append_left _ hc)
  anchored := by
    unfold spelled
    dsimp only
    split
    · next hanchored => exact hanchored
    · simp

/-- Braces at the end change nothing of the spelling. -/
theorem IsSpelled.append_replicate (h : IsSpelled cs) (k : Nat) :
    IsSpelled (cs ++ List.replicate k '}') := by
  have hne : cs ≠ [] := by
    rintro rfl
    exact absurd h.anchored (by decide)
  refine ⟨⟨?_, ?_⟩, ?_, ?_⟩
  · intro c hc
    rw [List.head?_append_of_ne_nil _ hne] at hc
    exact h.trimmed.first c hc
  · intro c hc
    rw [List.getLast?_append] at hc
    cases k with
    | zero => exact h.trimmed.last c (by simpa using hc)
    | succ k =>
      rw [List.getLast?_replicate, if_neg (Nat.succ_ne_zero k)] at hc
      cases hc
      rfl
  · rw [List.mem_append, List.mem_replicate]
    rintro (hc | ⟨-, hc⟩)
    · exact h.slashes hc
    · cases hc
  · have hanchored := h.anchored
    rw [Bool.or_eq_true, List.contains_iff_mem, List.isPrefixOf_iff_prefix] at hanchored ⊢
    rcases hanchored with hslash | hstars
    · exact .inl (List.mem_append_left _ hslash)
    · exact .inr (hstars.trans (List.prefix_append _ _))

theorem missing_eq_zero (h : Closed cs) : cs.count '{' - cs.count '}' = 0 := by
  rw [missing_eq, closed_iff.1 h, Nat.zero_sub]

/-- There are enough closing braces once they were added. -/
theorem closeBraces_closeBraces (cs : List Char) :
    closeBraces (closeBraces cs) = closeBraces cs := by
  have hnone : (closeBraces cs).count '{' - (closeBraces cs).count '}' = 0 := by
    simp only [closeBraces, List.count_append, List.count_replicate_self,
      List.count_replicate]
    simp
    omega
  conv_lhs => rw [closeBraces, hnone, List.replicate_zero, List.append_nil]

theorem normalize_normalize (typed : String) : normalize (normalize typed) = normalize typed := by
  have hspelled : IsSpelled (normalize typed).toList := by
    rw [toList_normalize]
    exact (isSpelled_spelled _).append_replicate _
  apply String.toList_injective
  rw [toList_normalize, hspelled.spelled_eq, toList_normalize, closeBraces_closeBraces]

/-! ### Classes -/

/-- No class of the text holds a brace. A class that is not read to its end holds nothing. -/
inductive BareClasses : List Char → Prop
  | nil : BareClasses []
  | cons {c : Char} {cs : List Char} (hc : c ≠ '[') (hcs : BareClasses cs) : BareClasses (c :: cs)
  | cls {inner rest : List Char} {t : Token} (hread : readBrackets (inner ++ rest) = .ok (t, rest))
    (hinner : inner.filter isBrace = []) (hrest : BareClasses rest) :
    BareClasses ('[' :: (inner ++ rest))
  | refused {cs : List Char} {e : SyntaxError} (hread : readBrackets cs = .error e) :
    BareClasses ('[' :: cs)

theorem BareClasses.tail (h : BareClasses (c :: cs)) (hc : c ≠ '[') : BareClasses cs := by
  cases h with
  | cons _ hcs => exact hcs
  | cls => exact absurd rfl hc
  | refused => exact absurd rfl hc

theorem BareClasses.of_append {front : List Char} (h : BareClasses (front ++ cs))
    (hfront : '[' ∉ front) : BareClasses cs := by
  induction front with
  | nil => exact h
  | cons c front ih =>
    obtain ⟨hc, hfront⟩ : '[' ≠ c ∧ '[' ∉ front := by simpa using hfront
    exact ih (h.tail (Ne.symm hc)) hfront

/-- The braces behind a class are those of the class and what follows it. -/
theorem BareClasses.behind {t : Token} (h : BareClasses ('[' :: cs))
    (hread : readBrackets cs = .ok (t, rest)) :
    BareClasses rest ∧ ∀ b, cs.foldl Braces.read b = rest.foldl Braces.read b := by
  cases h with
  | cons hc => exact absurd rfl hc
  | @cls inner rest' t' hread' hinner hrest =>
    obtain ⟨rfl, rfl⟩ : t' = t ∧ rest' = rest := by
      simpa [hread'] using hread
    refine ⟨hrest, fun b => ?_⟩
    rw [List.foldl_append, ← foldl_read_filter inner, hinner, List.foldl_nil]
  | refused hread' =>
    rw [hread'] at hread
    cases hread

end LspClient.Glob
