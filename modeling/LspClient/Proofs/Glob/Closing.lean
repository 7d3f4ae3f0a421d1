import LspClient.Proofs.Glob.Braces

/-!
# Closing braces

Where no class holds a brace (`BareClasses`), only a pattern whose braces leave a group open is
refused for it (`decides_readTokens`). So a normalised pattern is refused for its braces only if a
closing one of them stands where nothing is open.
-/

namespace LspClient.Glob

variable {cs inner rest : List Char} {b : Braces} {c : Char} {n s : Nat}

/-! ### Refused patterns -/

/-- What comes of a pattern that leaves these braces: a closing brace is refused where nothing is
open, and an open group at the end. -/
def Braces.Decides {α : Type} (b : Braces) : Except SyntaxError α → Prop
  | .ok _ => b.unopened = 0 ∧ b.unclosed = 0
  | .error .unopenedAlternatives => b.unopened ≠ 0
  | .error .unclosedAlternatives => b.unopened = 0 ∧ b.unclosed ≠ 0
  | .error _ => True

theorem groups_stars (st : ParseState) (rest : List Char) :
    (st.stars rest).1.groups = st.groups := by
  cases rest with
  | nil =>
    rw [ParseState.stars_nil]
    split
    · rfl
    split
    · rfl
    · exact st.groups_pushStars _
  | cons d tail =>
    rw [ParseState.stars_cons]
    split
    · split <;> rfl
    split
    · rfl
    split
    · exact st.groups_pushStars _
    split
    · exact st.groups_pushStars _
    · rfl

/-- Two stars take no more than a slash. -/
theorem stars_eq_or (st : ParseState) (rest : List Char) :
    (st.stars rest).2 = rest ∨ rest = '/' :: (st.stars rest).2 := by
  cases rest with
  | nil =>
    rw [ParseState.stars_nil]
    split
    · exact .inl rfl
    split <;> exact .inl rfl
  | cons d tail =>
    rw [ParseState.stars_cons]
    by_cases hd : d = '/'
    · subst hd
      split
      · exact .inr rfl
      split
      · exact .inl rfl
      · exact .inr rfl
    · simp only [hd, if_false]
      split
      · exact .inl rfl
      split
      · exact .inl rfl
      split <;> exact .inl rfl

theorem length_groups_nextBranch (st : ParseState) :
    st.nextBranch.groups.length = st.groups.length := by
  unfold ParseState.nextBranch
  split
  · rfl
  · next h => rw [h]; rfl

/-- Without escapes, and with no braces in classes, the braces decide whether a group is refused: as
many groups are open as there are braces that wait for theirs. -/
theorem decides_readTokens {fuel : Nat} {st : ParseState} (hfuel : cs.length ≤ fuel)
    (hclasses : BareClasses cs) (hescape : '\\' ∉ cs) :
    (cs.foldl Braces.read ⟨st.groups.length, 0⟩).Decides (readTokens fuel st cs) := by
  -- only braces are counted, and the groups that are open are the ones without an end
  have hplain {c : Char} {rest : List Char} (b : Braces) (hopen : c ≠ '{') (hclose : c ≠ '}') :
      (c :: rest).foldl Braces.read b = rest.foldl Braces.read b := by
    rw [List.foldl_cons, Braces.read_of_ne b hopen hclose]
  have htail {c : Char} {rest : List Char} (h : '\\' ∉ c :: rest) : '\\' ∉ rest :=
    fun hc => h (List.mem_cons_of_mem _ hc)
  fun_induction readTokens fuel st cs with
  | case1 fuel st hgroups => exact ⟨rfl, by simpa using hgroups⟩
  | case2 fuel st hgroups => exact ⟨rfl, by simpa using hgroups⟩
  | case3 st c rest => simp at hfuel
  | case4 fuel st rest ih =>
    rw [hplain _ (by decide) (by decide)]
    exact ih (Nat.le_of_succ_le_succ hfuel) (hclasses.tail (by decide)) (htail hescape)
  | case5 fuel st rest st' rest' hstars ih =>
    have hgroups := groups_stars st rest
    have htaken := stars_eq_or st rest
    simp only [hstars] at hgroups htaken
    rw [hplain _ (by decide) (by decide), hplain _ (by decide) (by decide), ← hgroups]
    simp only [List.length_cons] at hfuel
    have hclasses' := (hclasses.tail (by decide)).tail (by decide)
    have hescape' := htail (htail hescape)
    rcases htaken with rfl | rfl
    · exact ih (by omega) hclasses' hescape'
    · rw [List.length_cons] at hfuel
      rw [hplain _ (by decide) (by decide)]
      exact ih (by omega) (hclasses'.tail (by decide)) (htail hescape')
  | case6 fuel st rest hrest ih =>
    rw [hplain _ (by decide) (by decide)]
    exact ih (Nat.le_of_succ_le_succ hfuel) (hclasses.tail (by decide)) (htail hescape)
  | case7 fuel st rest t rest' hread ih =>
    obtain ⟨hclasses', hbraces⟩ := hclasses.behind hread
    obtain ⟨-, hsuffix⟩ := readBrackets_inv hread
    have hlength := hsuffix.length_le
    rw [List.length_cons] at hfuel
    rw [hplain _ (by decide) (by decide), hbraces]
    exact ih (by omega) hclasses' fun hc => htail hescape (hsuffix.mem hc)
  -- an error in a class is none of the groups
  | case8 fuel st rest e hread =>
    rcases readBrackets_error hread with rfl | ⟨first, last, rfl⟩
    · trivial
    · trivial
  | case9 fuel st rest ih =>
    exact ih (Nat.le_of_succ_le_succ hfuel) (hclasses.tail (by decide)) (htail hescape)
  | case10 fuel st rest st' hclose ih =>
    have hgroups : st.groups.length = st'.groups.length + 1 := by
      unfold ParseState.closeGroup at hclose
      split at hclose
      · cases hclose
      · next hst =>
        cases hclose
        rw [hst]
        rfl
    rw [List.foldl_cons, hgroups, Braces.read_close_succ]
    exact ih (Nat.le_of_succ_le_succ hfuel) (hclasses.tail (by decide)) (htail hescape)
  -- a group ends that was never begun
  | case11 fuel st rest e hclose =>
    unfold ParseState.closeGroup at hclose
    split at hclose
    · next hst =>
      cases hclose
      have hstray := unopened_le_foldl rest ⟨0, 1⟩
      rw [hst, List.foldl_cons]
      exact Nat.ne_of_gt hstray
    · cases hclose
  | case12 fuel st rest ih =>
    rw [hplain _ (by decide) (by decide), ← length_groups_nextBranch]
    exact ih (Nat.le_of_succ_le_succ hfuel) (hclasses.tail (by decide)) (htail hescape)
  | case13 fuel st => simp at hescape
  | case14 fuel st d rest ih => simp at hescape
  | case15 fuel st rest c hany hstar hclass hopen hclose hcomma hescape' ih =>
    rw [hplain _ hopen hclose]
    exact ih (Nat.le_of_succ_le_succ hfuel) (hclasses.tail hclass) (htail hescape)

theorem decides_parse {pattern : String} (hclasses : BareClasses pattern.toList)
    (hescape : '\\' ∉ pattern.toList) : (braces pattern.toList).Decides (parse pattern) :=
  decides_readTokens (Nat.le_refl _) hclasses hescape

/-- A pattern in which all groups are closed is not refused for one that is not. -/
theorem Closed.parse_ne {pattern : String} (h : Closed pattern.toList)
    (hclasses : BareClasses pattern.toList) (hescape : '\\' ∉ pattern.toList) :
    parse pattern ≠ .error .unclosedAlternatives := by
  intro herror
  have hdecides := decides_parse hclasses hescape
  rw [herror] at hdecides
  exact hdecides.2 (closed_iff.1 h)

/-! ### The remainder -/

theorem closed_append_iff {front : List Char} (h : '{' ∉ front) (cs : List Char) :
    Closed (front ++ cs) ↔ Closed cs := by
  induction front with
  | nil => rfl
  | cons c front ih =>
    obtain ⟨hc, hfront⟩ : '{' ≠ c ∧ '{' ∉ front := by simpa using h
    rw [← ih hfront, List.cons_append]
    generalize front ++ cs = rest
    constructor
    · intro hclosed
      cases hclosed with
      | cons _ hrest => exact hrest
      | group => exact absurd rfl hc
    · exact .cons (Ne.symm hc)

/-- What stands before the remainder is literal. -/
theorem exists_before_remainder (root : Path) (pattern : String) :
    ∃ front, pattern.toList = front ++ (split root pattern).2.toList ∧ hasMeta front = false := by
  by_cases hliteral : literalParts pattern = []
  · exact ⟨[], by rw [split_snd_of_nil hliteral, List.nil_append], rfl⟩
  · refine ⟨joinSlash (literalParts pattern) ++ ['/'], ?_, ?_⟩
    · rw [toList_eq_joinSlash_append hliteral, split_snd, String.toList_ofList, List.append_assoc,
        List.singleton_append]
    · rw [hasMeta, List.any_eq_false]
      intro c hc
      rcases List.mem_append.1 hc with hc | hc
      · rcases mem_joinSlash hc with rfl | ⟨part, hpart, hc⟩
        · decide
        · exact List.any_eq_false.1 (hasMeta_of_mem_splitLiteral hpart) c hc
      · cases List.mem_singleton.1 hc
        decide

/-- The literal beginning opens nothing, so all that is opened is opened in the remainder. -/
theorem closed_split_iff (root : Path) (pattern : String) :
    Closed (split root pattern).2.toList ↔ Closed pattern.toList := by
  obtain ⟨front, hpattern, hfront⟩ := exists_before_remainder root pattern
  rw [hpattern, closed_append_iff]
  exact fun hc => List.any_eq_false.1 hfront _ hc rfl

theorem BareClasses.split {pattern : String} (h : BareClasses pattern.toList) (root : Path) :
    BareClasses (split root pattern).2.toList := by
  obtain ⟨front, hpattern, hfront⟩ := exists_before_remainder root pattern
  rw [hpattern] at h
  exact h.of_append fun hc => List.any_eq_false.1 hfront _ hc rfl

theorem mem_of_mem_split_snd (root : Path) {pattern : String}
    (h : c ∈ (split root pattern).2.toList) : c ∈ pattern.toList := by
  obtain ⟨front, hpattern, -⟩ := exists_before_remainder root pattern
  rw [hpattern]
  exact List.mem_append_right _ h

/-! ### Normalised patterns -/

/-- What is added to a typed pattern for its braces to be closed: nothing but closing braces, and
nothing at all where they are closed already. -/
structure ClosesBraces (typed pattern : String) : Prop where
  slashes : '\\' ∉ pattern.toList
  again : normalize pattern = pattern
  added : ∃ k, pattern.toList = spelled typed.toList ++ List.replicate k '}' ∧
    (Closed typed.toList → k = 0)
  /-- Of the groups that are open as many stay open as there are braces that close nothing. -/
  left : (braces pattern.toList).unclosed =
    min (braces typed.toList).unclosed (braces typed.toList).unopened
  /-- All are closed, unless some group was open and some closing brace came too early. -/
  closed : Closed pattern.toList ↔ Closed typed.toList ∨
    ∀ front, front <+: typed.toList → front.count '}' ≤ front.count '{'
  /-- Then, if no class holds a brace, the pattern is not refused for an open group, neither whole
  nor behind the directory that it begins with. -/
  accepted : BareClasses pattern.toList → Closed pattern.toList →
    parse pattern ≠ .error .unclosedAlternatives ∧
      ∀ root, parse (split root pattern).2 ≠ .error .unclosedAlternatives

theorem normalize_closes (typed : String) : ClosesBraces typed (normalize typed) := by
  have hbraces : braces (normalize typed).toList =
      ⟨min (braces typed.toList).unclosed (braces typed.toList).unopened,
        (braces typed.toList).unopened⟩ := by
    rw [toList_normalize, braces_closeBraces, braces_spelled]
  have hslashes := backslash_notMem_normalize typed
  constructor
  case slashes => exact hslashes
  case again => exact normalize_normalize typed
  case added =>
    refine ⟨_, toList_normalize typed, fun hclosed => ?_⟩
    exact missing_eq_zero (closed_iff.2 (by rw [braces_spelled, closed_iff.1 hclosed]))
  case left => rw [hbraces]
  case closed =>
    have hunopened : (braces typed.toList).unopened = 0 ↔
        ∀ front, front <+: typed.toList → front.count '}' ≤ front.count '{' := by
      simpa [braces] using @unopened_eq_iff typed.toList ⟨0, 0⟩
    rw [closed_iff, closed_iff, hbraces, ← hunopened, ← Nat.min_eq_zero_iff]
  case accepted =>
    intro hclasses hclosed
    refine ⟨hclosed.parse_ne hclasses hslashes, fun root => ?_⟩
    refine ((closed_split_iff root _).2 hclosed).parse_ne (hclasses.split root) ?_
    exact fun h => hslashes (mem_of_mem_split_snd root h)

/-- A closing brace in a class, or in the name of a directory, counts as if it closed the group
that comes behind it, and that group is left open. A brace in a class closes nothing when the
pattern is read, whatever the count says. -/
theorem normalize_leaves_open :
    (normalize "[\x7d]\x7ba" = "**/[\x7d]\x7ba" ∧ ¬ Closed (normalize "[\x7d]\x7ba").toList ∧
        parse (normalize "[\x7d]\x7ba") = .error .unclosedAlternatives) ∧
      (normalize "a\x7d/\x7bb" = "a\x7d/\x7bb" ∧ ¬ Closed (normalize "a\x7d/\x7bb").toList ∧
        parse (split ⟨"/"⟩ (normalize "a\x7d/\x7bb")).2 = .error .unclosedAlternatives) ∧
      (normalize "\x7b[\x7d]" = "**/\x7b[\x7d]" ∧ Closed (normalize "\x7b[\x7d]").toList ∧
        parse (normalize "\x7b[\x7d]") = .error .unclosedAlternatives) := by
  have hclass : normalize "[\x7d]\x7ba" = "**/[\x7d]\x7ba" := by decide +kernel
  have hname : normalize "a\x7d/\x7bb" = "a\x7d/\x7bb" := by decide +kernel
  have hsplit : split ⟨"/"⟩ "a\x7d/\x7bb" = (⟨"/a\x7d"⟩, "\x7bb") := by decide +kernel
  have hinside : normalize "\x7b[\x7d]" = "**/\x7b[\x7d]" := by decide +kernel
  rw [hclass, hname, hsplit, hinside]
  exact ⟨⟨rfl, by decide, rfl⟩, ⟨rfl, by decide, rfl⟩, ⟨rfl, by decide, rfl⟩⟩

end LspClient.Glob
