import LspClient.Process.Spawn
import Mathlib

/-!
# Names that are secret

`Matches` says what a pattern stands for: a star, at any place, for any characters, and every other
character for itself. A pattern without a star between its ends is matched by what a name begins
with, ends in or holds (`matchesPattern_iff`), and no denied pattern has one there; all of them are
in upper case (`upper_deniedPatterns`). So a name is secret exactly if a denied pattern stands for
its upper case (`isSecret_iff_denied`).

The patterns are ASCII and cannot tell apart texts that are `Alike`: the same ASCII characters, with
something else between the same of them. It is therefore all the same which upper case is taken for
a character where none of ASCII comes of it (`UpperCases`).
-/

namespace LspClient

namespace Environment

/-! ### What a pattern stands for -/

/-- A pattern stands for a text. -/
inductive Matches : List Char → List Char → Prop
  | nil : Matches [] []
  | star {pattern text : List Char} (skipped : List Char) :
      Matches pattern text → Matches ('*' :: pattern) (skipped ++ text)
  | char {c : Char} {pattern text : List Char} :
      c ≠ '*' → Matches pattern text → Matches (c :: pattern) (c :: text)

section Matches

variable {c : Char} {part pattern text : List Char}

theorem matches_nil_iff : Matches [] text ↔ text = [] := by
  constructor
  · intro h
    cases h
    rfl
  · rintro rfl
    exact .nil

theorem matches_star_iff :
    Matches ('*' :: pattern) text ↔
      ∃ skipped rest, text = skipped ++ rest ∧ Matches pattern rest := by
  constructor
  · intro h
    cases h with
    | star skipped hrest => exact ⟨skipped, _, rfl, hrest⟩
    | char hne => exact absurd rfl hne
  · rintro ⟨skipped, rest, rfl, hrest⟩
    exact .star skipped hrest

theorem matches_char_iff (hc : c ≠ '*') :
    Matches (c :: pattern) text ↔ ∃ rest, text = c :: rest ∧ Matches pattern rest := by
  constructor
  · intro h
    cases h with
    | star => exact absurd rfl hc
    | char _ hrest => exact ⟨_, rfl, hrest⟩
  · rintro ⟨rest, rfl, hrest⟩
    exact .char hc hrest

theorem matches_append_iff (hpart : '*' ∉ part) :
    Matches (part ++ pattern) text ↔ ∃ rest, text = part ++ rest ∧ Matches pattern rest := by
  induction part generalizing text with
  | nil => simp
  | cons c part ih =>
    obtain ⟨hc, hpart⟩ := not_or.1 (mt List.mem_cons.2 hpart)
    rw [List.cons_append, matches_char_iff (Ne.symm hc)]
    constructor
    · rintro ⟨_, rfl, h⟩
      obtain ⟨behind, rfl, hbehind⟩ := (ih hpart).1 h
      exact ⟨behind, rfl, hbehind⟩
    · rintro ⟨rest, rfl, h⟩
      exact ⟨part ++ rest, rfl, (ih hpart).2 ⟨rest, rfl, h⟩⟩

theorem matches_literal_iff (hpart : '*' ∉ part) : Matches part text ↔ text = part := by
  have happend : Matches (part ++ []) text ↔ ∃ rest, text = part ++ rest ∧ Matches [] rest :=
    matches_append_iff hpart
  simpa [matches_nil_iff] using happend

theorem matches_star : Matches ['*'] text := by
  have h := Matches.star text .nil
  rwa [List.append_nil] at h

theorem matches_suffix_iff (hpart : '*' ∉ part) : Matches ('*' :: part) text ↔ part <:+ text := by
  rw [matches_star_iff]
  constructor
  · rintro ⟨skipped, rest, rfl, h⟩
    exact ⟨skipped, by rw [(matches_literal_iff hpart).1 h]⟩
  · rintro ⟨skipped, rfl⟩
    exact ⟨skipped, part, rfl, (matches_literal_iff hpart).2 rfl⟩

theorem matches_prefix_iff (hpart : '*' ∉ part) : Matches (part ++ ['*']) text ↔ part <+: text := by
  rw [matches_append_iff hpart]
  constructor
  · rintro ⟨rest, rfl, -⟩
    exact ⟨rest, rfl⟩
  · rintro ⟨rest, rfl⟩
    exact ⟨rest, rfl, matches_star⟩

theorem matches_infix_iff (hpart : '*' ∉ part) :
    Matches ('*' :: (part ++ ['*'])) text ↔ part <:+: text := by
  rw [matches_star_iff]
  constructor
  · rintro ⟨skipped, rest, rfl, h⟩
    obtain ⟨behind, rfl⟩ := (matches_prefix_iff hpart).1 h
    exact ⟨skipped, behind, List.append_assoc ..⟩
  · rintro ⟨skipped, behind, rfl⟩
    have hprefix : Matches (part ++ ['*']) (part ++ behind) :=
      (matches_prefix_iff hpart).2 ⟨behind, rfl⟩
    exact ⟨skipped, part ++ behind, List.append_assoc .., hprefix⟩

end Matches

/-! ### Patterns with stars at their ends -/

theorem occursIn_iff {part text : List Char} : occursIn part text = true ↔ part <:+: text := by
  induction text with
  | nil => simp [occursIn]
  | cons c text ih => simp [occursIn, ih, List.infix_cons_iff]

/-- A character that is not inside a list nor at its end is not in it. -/
theorem not_mem_of_dropLast {c : Char} {l : List Char} (hinit : c ∉ l.dropLast)
    (hlast : l.getLast? ≠ some c) : c ∉ l := by
  intro hmem
  rcases List.eq_nil_or_concat l with rfl | ⟨init, last, rfl⟩
  · cases hmem
  · simp only [List.concat_eq_append, List.dropLast_concat] at hinit
    simp only [List.concat_eq_append, List.getLast?_concat, ne_eq, Option.some.injEq] at hlast
    simp only [List.concat_eq_append, List.mem_append, List.mem_singleton] at hmem
    rcases hmem with hmem | rfl
    · exact hinit hmem
    · exact hlast rfl

/-- A pattern has no star but at its ends. -/
def StarsAtEnds (pattern : List Char) : Prop := '*' ∉ pattern.tail.dropLast

instance (pattern : List Char) : Decidable (StarsAtEnds pattern) :=
  inferInstanceAs (Decidable ('*' ∉ pattern.tail.dropLast))

theorem StarsAtEnds.not_mem_dropLast {pattern : List Char} (h : StarsAtEnds pattern)
    (hfirst : ∀ rest, pattern ≠ '*' :: rest) : '*' ∉ pattern.dropLast := by
  rcases pattern with _ | ⟨c, _ | ⟨d, rest⟩⟩
  · simp
  · simp
  · rw [List.dropLast_cons_cons]
    intro hmem
    rcases List.mem_cons.1 hmem with rfl | hmem
    · exact hfirst _ rfl
    · exact h hmem

theorem matchesPattern_iff {pattern : List Char} (hupper : upper pattern = pattern)
    (h : StarsAtEnds pattern) (key : List Char) :
    matchesPattern pattern key = true ↔ Matches pattern key := by
  rw [matchesPattern, hupper]
  split
  · next rest hlast =>
    rw [occursIn_iff]
    rcases List.eq_nil_or_concat rest with rfl | ⟨part, last, rfl⟩
    · simp [matches_star]
    · have hstar : last = '*' := by simpa [List.getLast?_cons] using hlast
      subst hstar
      have hpart : '*' ∉ part := by simpa [StarsAtEnds] using h
      rw [List.concat_eq_append, List.dropLast_concat, matches_infix_iff hpart]
  · next rest hlast =>
    have hpart : '*' ∉ rest := by
      refine not_mem_of_dropLast h fun hrest => hlast ?_
      simp [List.getLast?_cons, hrest]
    rw [matches_suffix_iff hpart]
    exact List.isSuffixOf_iff_suffix
  · next pattern _ _ hfirst hlast =>
    have happend : pattern.dropLast ++ ['*'] = pattern := List.dropLast_append_getLast? _ hlast
    have hpart : '*' ∉ pattern.dropLast := h.not_mem_dropLast hfirst
    conv_rhs => rw [← happend, matches_prefix_iff hpart]
    exact List.isPrefixOf_iff_prefix
  · next pattern _ _ hfirst hlast _ =>
    have hpart : '*' ∉ pattern := not_mem_of_dropLast (h.not_mem_dropLast hfirst) hlast
    rw [matches_literal_iff hpart, beq_iff_eq, eq_comm]

theorem starsAtEnds_deniedPatterns : ∀ p ∈ deniedPatterns, StarsAtEnds p.toList := by
  decide

theorem upper_deniedPatterns : ∀ p ∈ deniedPatterns, upper p.toList = p.toList := by
  decide

theorem matchesPattern_denied_iff {p : String} (hp : p ∈ deniedPatterns) (key : List Char) :
    matchesPattern p.toList key = true ↔ Matches p.toList key :=
  matchesPattern_iff (upper_deniedPatterns p hp) (starsAtEnds_deniedPatterns p hp) key

/-! ### Texts that are alike in ASCII -/

/-- Texts that differ in what stands between their ASCII characters, but not in whether anything
does. -/
inductive Alike : List Char → List Char → Prop
  | nil : Alike [] []
  | same {s t : List Char} (c : Char) : Alike s t → Alike (c :: s) (c :: t)
  | other {u v s t : List Char} : u ≠ [] → v ≠ [] → (∀ d ∈ u ++ v, 128 ≤ d.toNat) →
      Alike s t → Alike (u ++ s) (v ++ t)

namespace Alike

variable {c : Char} {pattern s t u : List Char}

theorem symm (h : Alike s t) : Alike t s := by
  induction h with
  | nil => exact .nil
  | same c _ ih => exact .same c ih
  | other hu hv hbeyond _ ih =>
    refine .other hv hu (fun d hd => hbeyond d ?_) ih
    rwa [List.mem_append, or_comm, ← List.mem_append]

theorem same_append (u : List Char) (h : Alike s t) : Alike (u ++ s) (u ++ t) := by
  induction u with
  | nil => exact h
  | cons c u ih => exact .same c ih

theorem eq_nil (h : Alike [] t) : t = [] := by
  generalize hs : [] = s at h
  cases h with
  | nil => rfl
  | same => cases hs
  | other hu => exact absurd (List.append_eq_nil_iff.1 hs.symm).1 hu

/-- A text that begins with an ASCII character is only like those that begin with it too. -/
theorem of_cons (hc : c.toNat < 128) (h : Alike (c :: s) t) :
    ∃ rest, t = c :: rest ∧ Alike s rest := by
  generalize hw : c :: s = w at h
  cases h with
  | nil => cases hw
  | same d h =>
    obtain ⟨rfl, rfl⟩ := List.cons.inj hw
    exact ⟨_, rfl, h⟩
  | @other u v s' t' hu hv hbeyond h =>
    obtain ⟨d, u, rfl⟩ := List.exists_cons_of_ne_nil hu
    obtain ⟨rfl, -⟩ := List.cons.inj hw
    have hbeyondc : 128 ≤ c.toNat := hbeyond c (by simp)
    omega

/-- Wherever a text is cut, one that is like it can be cut too. -/
theorem cut (h : Alike (u ++ s) t) : ∃ v rest, t = v ++ rest ∧ Alike s rest := by
  generalize hw : u ++ s = w at h
  induction h generalizing u with
  | nil =>
    obtain ⟨rfl, rfl⟩ := List.append_eq_nil_iff.1 hw
    exact ⟨[], [], rfl, .nil⟩
  | @same s' t' c h ih =>
    rcases u with _ | ⟨d, u⟩
    · rw [List.nil_append] at hw
      exact ⟨[], c :: t', rfl, hw ▸ h.same c⟩
    · obtain ⟨v, rest, rfl, hrest⟩ := ih (List.cons.inj hw).2
      exact ⟨c :: v, rest, rfl, hrest⟩
  | @other u' v' s' t' hu hv hbeyond h ih =>
    rcases List.append_eq_append_iff.1 hw with ⟨inner, rfl, rfl⟩ | ⟨behind, rfl, rfl⟩
    · -- the cut is inside what stands between ASCII characters
      rcases inner with _ | ⟨d, inner⟩
      · exact ⟨v', t', rfl, h⟩
      · refine ⟨[], v' ++ t', rfl, .other (List.cons_ne_nil d inner) hv (fun e he => ?_) h⟩
        refine hbeyond e ?_
        rw [List.append_assoc]
        exact List.mem_append_right u he
    · obtain ⟨v, rest, rfl, hrest⟩ := ih rfl
      exact ⟨v' ++ v, rest, (List.append_assoc ..).symm, hrest⟩

theorem matched (hpattern : ∀ c ∈ pattern, c.toNat < 128) (h : Alike s t)
    (hs : Matches pattern s) : Matches pattern t := by
  induction hs generalizing t with
  | nil =>
    rw [h.eq_nil]
    exact .nil
  | star skipped _ ih =>
    obtain ⟨v, rest, rfl, hrest⟩ := h.cut
    exact .star v (ih (fun c hc => hpattern c (List.mem_cons_of_mem _ hc)) hrest)
  | char hne _ ih =>
    obtain ⟨rest, rfl, hrest⟩ := h.of_cons (hpattern _ (List.mem_cons_self ..))
    exact .char hne (ih (fun c hc => hpattern c (List.mem_cons_of_mem _ hc)) hrest)

theorem matches_iff (hpattern : ∀ c ∈ pattern, c.toNat < 128) (h : Alike s t) :
    Matches pattern s ↔ Matches pattern t :=
  ⟨h.matched hpattern, h.symm.matched hpattern⟩

end Alike

/-! ### Upper case -/

/-- `f` gives the upper case of a character as `upperChar` does, but perhaps for a character whose
upper case holds no ASCII character. The full upper case of Unicode is such a function. -/
def UpperCases (f : Char → List Char) : Prop :=
  ∀ c, f c = upperChar c ∨ f c ≠ [] ∧ ∀ d ∈ f c ++ upperChar c, 128 ≤ d.toNat

theorem upperChar_ne_nil (c : Char) : upperChar c ≠ [] := by
  unfold upperChar
  split <;> exact List.cons_ne_nil _ _

theorem UpperCases.alike {f : Char → List Char} (hf : UpperCases f) (key : List Char) :
    Alike (upper key) (key.flatMap f) := by
  unfold upper
  induction key with
  | nil => exact .nil
  | cons c key ih =>
    rw [List.flatMap_cons, List.flatMap_cons]
    rcases hf c with heq | ⟨hne, hbeyond⟩
    · rw [heq]
      exact ih.same_append _
    · refine Alike.symm (.other hne (upperChar_ne_nil c) hbeyond ih.symm)

theorem upperChar_of_ascii {c : Char} (h : c.toNat < 128) : upperChar c = [c.toUpper] := by
  unfold upperChar
  split
  case h_18 => rfl
  all_goals exact absurd h (by decide)

theorem upperChar_toLower (c : Char) : upperChar c.toLower = upperChar c := by
  by_cases hupper : c.isUpper
  · have hbounds : 65 ≤ c.toNat ∧ c.toNat ≤ 90 := by
      simpa [Char.isUpper, UInt32.le_iff_toNat_le] using hupper
    have hc : c.toNat < 128 := by omega
    have hlower : c.toLower.toNat < 128 := by
      have hvalid : (c.toNat + 32).isValidChar := by omega
      rw [Char.toLower_eq_of_isUpper hupper, Char.toNat_ofNat, if_pos hvalid]
      omega
    rw [upperChar_of_ascii hlower, upperChar_of_ascii hc, Char.toUpper_toLower_eq_toUpper]
  · rw [Char.toLower_eq_of_not_isUpper hupper]

theorem upper_map_toLower (key : List Char) : upper (key.map Char.toLower) = upper key := by
  unfold upper
  rw [List.flatMap_map]
  exact List.flatMap_congr fun c _ => upperChar_toLower c

/-! ### Secret names -/

theorem ascii_deniedPatterns : ∀ p ∈ deniedPatterns, ∀ c ∈ p.toList, c.toNat < 128 := by
  simp [deniedPatterns]

theorem isSecret_iff {key : String} :
    isSecret key = true ↔ ∃ p ∈ deniedPatterns, Matches p.toList (upper key.toList) := by
  unfold isSecret
  rw [List.any_eq_true]
  constructor
  · rintro ⟨p, hp, h⟩
    exact ⟨p, hp, (matchesPattern_denied_iff hp _).1 h⟩
  · rintro ⟨p, hp, h⟩
    exact ⟨p, hp, (matchesPattern_denied_iff hp _).2 h⟩

theorem isSecret_iff_of_upperCases {f : Char → List Char} (hf : UpperCases f) {key : String} :
    isSecret key = true ↔ ∃ p ∈ deniedPatterns, Matches p.toList (key.toList.flatMap f) := by
  rw [isSecret_iff]
  have halike : Alike (upper key.toList) (key.toList.flatMap f) := hf.alike key.toList
  constructor
  · rintro ⟨p, hp, h⟩
    exact ⟨p, hp, (halike.matches_iff (ascii_deniedPatterns p hp)).1 h⟩
  · rintro ⟨p, hp, h⟩
    exact ⟨p, hp, (halike.matches_iff (ascii_deniedPatterns p hp)).2 h⟩

theorem isSecret_congr {key key' : String}
    (h : key'.toList.map Char.toLower = key.toList.map Char.toLower) :
    isSecret key' = isSecret key := by
  have hupper : upper key'.toList = upper key.toList := by
    rw [← upper_map_toLower, h, upper_map_toLower]
  unfold isSecret
  rw [hupper]

/-- A name is secret exactly if a denied pattern stands for its upper case, whichever upper case
is taken for the characters beyond ASCII. The case of its ASCII letters has no part in it. -/
theorem isSecret_iff_denied (key : String) :
    (isSecret key = true ↔ ∃ p ∈ deniedPatterns, Matches p.toList (upper key.toList)) ∧
    (∀ f, UpperCases f →
      (isSecret key = true ↔ ∃ p ∈ deniedPatterns, Matches p.toList (key.toList.flatMap f))) ∧
    ∀ key' : String, key'.toList.map Char.toLower = key.toList.map Char.toLower →
      isSecret key' = isSecret key :=
  ⟨isSecret_iff, fun _ hf => isSecret_iff_of_upperCases hf, fun _ h => isSecret_congr h⟩

/-- The upper case of ASCII letters, and of two letters beyond them. -/
def upperAccented (c : Char) : List Char :=
  match c with
  | 'é' => ['É']
  | 'ΐ' => ['Ι', '\u0308', '\u0301']
  | c => upperChar c

theorem isSecret_iff_denied_accented :
    UpperCases upperAccented ∧
    "Clé_ΐ_ToKeN".toList.map Char.toLower = "clé_ΐ_token".toList.map Char.toLower ∧
    (∃ p ∈ deniedPatterns, Matches p.toList ("clé_ΐ_token".toList.flatMap upperAccented)) ∧
    isSecret "Clé_ΐ_ToKeN" = true := by
  have hf : UpperCases upperAccented := by
    intro c
    unfold upperAccented
    split
    · exact .inr (by simp [upperChar])
    · exact .inr (by simp [upperChar])
    · exact .inl rfl
  have hlower :
      "Clé_ΐ_ToKeN".toList.map Char.toLower = "clé_ΐ_token".toList.map Char.toLower := by
    decide
  obtain ⟨-, hmatches, hcase⟩ := isSecret_iff_denied "clé_ΐ_token"
  have hsecret : isSecret "clé_ΐ_token" = true := by decide
  exact ⟨hf, hlower, (hmatches upperAccented hf).1 hsecret, (hcase _ hlower).trans hsecret⟩

end Environment

/-! ### Processes -/

namespace Process

variable {ε : Type}

/-- A process is told of the variables whose names match no denied pattern, and of no others. -/
theorem mem_environment_of_prepare {program : String} {args : List String} {dir : Option Path}
    {w w' : World ε} {b : Begun} (h : prepare program args dir w = (.ok b, w'))
    (e : String × String) :
    e ∈ b.invocation.environment ↔ e ∈ w.environment ∧
      ∀ p ∈ Environment.deniedPatterns,
        ¬ Environment.Matches p.toList (Environment.upper e.1.toList) := by
  have henvironment : b.invocation.environment = withoutSecrets w.environment := by
    unfold prepare at h
    split at h
    · cases h
    · cases h
      rfl
  rw [henvironment, withoutSecrets, List.mem_mergeSort, List.mem_filter, Bool.not_eq_true',
    ← Bool.not_eq_true, Environment.isSecret_iff]
  simp

end Process

end LspClient
