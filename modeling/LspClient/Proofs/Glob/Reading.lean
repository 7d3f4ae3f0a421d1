import LspClient.Glob.Expand

/-!
# Reading a pattern behind a literal directory

What is read of a pattern behind a directory and a slash is what is read of the pattern alone, but
for two stars that begin it: these take up the slash (`behindSlash`). So it is with any state that
reading can come to (`ParseState.inside`), since the tokens read so far are looked at only where
they are the last one or where there is none.
-/

namespace LspClient.Glob

/-- The tokens of a pattern with a slash in front. -/
def behindSlash : List Token → List Token
  | [.leadingStars] => [.trailingStars]
  | .leadingStars :: ts => .innerStars :: ts
  | ts => .literal '/' :: ts

/-- Tokens under way, last first, with a slash in front and `dir` before it. -/
def tokensInside (dir : List Token) : List Token → List Token
  | [] => .literal '/' :: dir
  | [.leadingStars] => .innerStars :: dir
  | t :: ts => t :: tokensInside dir ts

def groupsInside (dir : List Token) : List OpenGroup → List OpenGroup
  | [] => []
  | [g] => [{ g with outer := tokensInside dir g.outer }]
  | g :: gs => g :: groupsInside dir gs

/-- A state as it is when the pattern is read behind `dir` and a slash. -/
def ParseState.inside (dir : List Token) (s : ParseState) : ParseState where
  groups := groupsInside dir s.groups
  tokens := if s.groups.isEmpty then tokensInside dir s.tokens else s.tokens
  prev := some (s.prev.getD '/')

variable {dir ts : List Token} {t : Token} {s : ParseState} {c : Char} {cs rest : List Char}
  {fuel : Nat}

theorem tokensInside_cons (h : t ≠ .leadingStars ∨ ts ≠ []) :
    tokensInside dir (t :: ts) = t :: tokensInside dir ts := by
  rw [tokensInside]
  rintro rfl rfl
  simp at h

theorem tokensInside_concat (dir ts : List Token) (t : Token) :
    tokensInside dir (ts ++ [t]) = ts ++ tokensInside dir [t] := by
  induction ts with
  | nil => rfl
  | cons u ts ih => rw [List.cons_append, tokensInside_cons (by simp), ih, List.cons_append]

theorem tokensInside_ne_nil : tokensInside dir ts ≠ [] := by
  fun_cases tokensInside dir ts <;> simp

/-- What is read in the end. -/
theorem reverse_tokensInside (h : ts ≠ [.leadingStars]) :
    (tokensInside dir ts).reverse = dir.reverse ++ behindSlash ts.reverse := by
  obtain rfl | ⟨ts, t, rfl⟩ := List.eq_nil_or_concat ts
  · simp [tokensInside, behindSlash]
  · rw [List.concat_eq_append] at h ⊢
    rw [tokensInside_concat, List.reverse_append, List.reverse_append]
    by_cases ht : t = .leadingStars
    · subst ht
      obtain ⟨u, us, hus⟩ := List.exists_cons_of_ne_nil (l := ts.reverse) (by simpa using h)
      simp [tokensInside, behindSlash, hus]
    · rw [tokensInside_cons (.inl ht)]
      simp [tokensInside, behindSlash, ht]

/-! ### Steps -/

namespace ParseState

/-- A state in which `cs` can be left to read: no character is before it only if there is no token
yet, and where two stars are all that was read they are not the end. -/
structure Sound (s : ParseState) (cs : List Char) : Prop where
  begun : s.prev = none ↔ s.groups = [] ∧ s.tokens = []
  stars : s.groups = [] → s.tokens = [.leadingStars] → cs ≠ []

theorem inside_push (h : t ≠ .leadingStars ∨ s.groups ≠ []) :
    (s.push t).inside dir = (s.inside dir).push t := by
  obtain ⟨groups, tokens, prev⟩ := s
  cases groups with
  | nil => simp [inside, push, tokensInside_cons (.inl (h.resolve_right (· rfl)))]
  | cons => simp [inside, push]

@[simp] theorem inside_behind : (s.behind c).inside dir = (s.inside dir).behind c := rfl

@[simp] theorem inside_openGroup : s.openGroup.inside dir = (s.inside dir).openGroup := by
  obtain ⟨groups, tokens, prev⟩ := s
  cases groups <;> simp [inside, openGroup, groupsInside]

@[simp] theorem inside_nextBranch : s.nextBranch.inside dir = (s.inside dir).nextBranch := by
  obtain ⟨groups, tokens, prev⟩ := s
  match groups with
  | [] => exact inside_push (.inl (by simp))
  | [g] => simp [inside, nextBranch, groupsInside]
  | g :: g' :: gs => simp [inside, nextBranch, groupsInside]

theorem closeGroup_inside :
    (s.inside dir).closeGroup = s.closeGroup.map (inside dir) := by
  obtain ⟨groups, tokens, prev⟩ := s
  match groups with
  | [] => rfl
  | [g] => simp [inside, closeGroup, groupsInside, Except.map, tokensInside_cons]
  | g :: g' :: gs => simp [inside, closeGroup, groupsInside, Except.map]

theorem inside_pushStars {stars : Token} (hstars : stars = .innerStars ∨ stars = .trailingStars)
    (htokens : s.groups = [] → s.tokens ≠ [] ∧ (s.tokens = [.leadingStars] → stars = .innerStars)) :
    (s.pushStars stars).inside dir = (s.inside dir).pushStars stars := by
  obtain ⟨groups, tokens, prev⟩ := s
  cases groups with
  | cons g gs =>
    match tokens with
    | [] => simp [inside, pushStars]
    | t :: ts => cases t <;> simp [inside, pushStars]
  | nil =>
    obtain ⟨hne, hlone⟩ := htokens rfl
    obtain ⟨t, ts, rfl⟩ := List.exists_cons_of_ne_nil hne
    by_cases h : t = .leadingStars ∧ ts = []
    · obtain ⟨rfl, rfl⟩ := h
      obtain rfl := hlone rfl
      rfl
    · have hcons : ∀ {u : Token}, u ≠ .leadingStars ∨ ts ≠ [] →
          tokensInside dir (u :: ts) = u :: tokensInside dir ts := tokensInside_cons
      obtain rfl | rfl := hstars <;> cases t <;> simp_all [inside, pushStars]

theorem atComponent_inside (h : s.prev ≠ none) : (s.inside dir).atComponent = s.atComponent := by
  obtain ⟨groups, tokens, prev⟩ := s
  obtain ⟨c, rfl⟩ := Option.ne_none_iff_exists'.1 h
  match groups with
  | [] => rfl
  | [g] => rfl
  | g :: g' :: gs => rfl

@[simp] theorem isEmpty_groups_inside : (s.inside dir).groups.isEmpty = s.groups.isEmpty := by
  obtain ⟨groups, tokens, prev⟩ := s
  match groups with
  | [] => rfl
  | [g] => rfl
  | g :: g' :: gs => rfl

theorem isEmpty_tokens_inside (h : s.groups = [] → s.tokens ≠ []) :
    (s.inside dir).tokens.isEmpty = s.tokens.isEmpty := by
  obtain ⟨groups, tokens, prev⟩ := s
  cases groups with
  | nil =>
    rw [List.isEmpty_eq_false_iff.2 (h rfl)]
    exact List.isEmpty_eq_false_iff.2 tokensInside_ne_nil
  | cons => rfl

/-! ### Two stars -/

theorem stars_nil (s : ParseState) : s.stars [] =
    if s.tokens.isEmpty then (s.push .leadingStars, [])
    else if !s.atComponent then (((s.push .star).push .star).behind '*', [])
    else (s.pushStars .trailingStars, []) := by
  unfold stars
  rfl

theorem stars_cons (s : ParseState) (d : Char) (tail : List Char) : s.stars (d :: tail) =
    let plain := (((s.push .star).push .star).behind '*', d :: tail)
    if s.tokens.isEmpty then
      if d = '/' then ((s.push .leadingStars).behind '/', tail) else plain
    else if !s.atComponent then plain
    else if d = '/' then ((s.pushStars .innerStars).behind '/', tail)
    else if (d = ',' ∨ d = '}') ∧ !s.groups.isEmpty then
      ((s.pushStars .trailingStars).behind '*', d :: tail)
    else plain := by
  unfold stars
  by_cases hd : d = '/'
  · subst hd
    rfl
  · simp [hd]

theorem inside_push_star :
    ((s.push .star).push .star).inside dir = ((s.inside dir).push .star).push .star := by
  rw [inside_push (.inl (by simp)), inside_push (.inl (by simp))]

/-- Two stars that do not end the pattern. -/
theorem stars_inside (hs : s.prev = none ↔ s.groups = [] ∧ s.tokens = []) (d : Char)
    (tail : List Char) :
    (s.inside dir).stars (d :: tail) =
      ((s.stars (d :: tail)).1.inside dir, (s.stars (d :: tail)).2) := by
  rw [stars_cons, stars_cons]
  by_cases hprev : s.prev = none
  · -- the slash that is taken up is the one behind `dir`
    obtain ⟨groups, tokens, prev⟩ := s
    obtain ⟨rfl, rfl⟩ := hs.1 hprev
    obtain rfl : prev = none := hprev
    by_cases hd : d = '/'
    · subst hd
      rfl
    · simp [hd, inside, atComponent, push, behind, tokensInside, groupsInside]
  · have hbegun : s.groups = [] → s.tokens ≠ [] := fun h h' => hprev (hs.2 ⟨h, h'⟩)
    rw [isEmpty_tokens_inside hbegun, atComponent_inside hprev, isEmpty_groups_inside]
    cases htokens : s.tokens.isEmpty with
    | true =>
      have hgroups : s.groups ≠ [] := fun h => hbegun h (List.isEmpty_iff.1 htokens)
      simp only [if_true]
      split
      · simp only [inside_behind, inside_push (.inr hgroups)]
      · simp only [inside_behind, inside_push_star]
    | false =>
      have hinner : (s.pushStars .innerStars).inside dir = (s.inside dir).pushStars .innerStars :=
        inside_pushStars (.inl rfl) fun h => ⟨hbegun h, fun _ => rfl⟩
      have htrailing (hgroups : s.groups ≠ []) :
          (s.pushStars .trailingStars).inside dir = (s.inside dir).pushStars .trailingStars :=
        inside_pushStars (.inr rfl) fun h => absurd h hgroups
      simp only [Bool.false_eq_true, if_false]
      split
      · simp only [inside_behind, inside_push_star]
      split
      · simp only [inside_behind, hinner]
      split
      · next h => simp only [inside_behind, htrailing (by simpa using h.2)]
      · simp only [inside_behind, inside_push_star]

@[simp] theorem groups_pushStars (s : ParseState) (stars : Token) :
    (s.pushStars stars).groups = s.groups := by
  unfold pushStars
  split <;> rfl

theorem tokens_pushStars_ne_nil (s : ParseState) (stars : Token) :
    (s.pushStars stars).tokens ≠ [] := by
  unfold pushStars
  split <;> simp

theorem tokens_pushStars_ne_lone (s : ParseState) (h : s.tokens ≠ [.leadingStars]) :
    (s.pushStars .trailingStars).tokens ≠ [.leadingStars] := by
  unfold pushStars
  split <;> simp_all

/-- Where a character was read, it is enough to look at the tokens outside of groups. -/
theorem sound_behind (h : s.groups = [] → s.tokens ≠ [] ∧ (s.tokens = [.leadingStars] → cs ≠ [])) :
    (s.behind c).Sound cs :=
  ⟨⟨nofun, fun ⟨hgroups, htokens⟩ => absurd htokens (h hgroups).1⟩, fun hgroups => (h hgroups).2⟩

theorem sound_push_behind (ht : t ≠ .leadingStars) : ((s.push t).behind c).Sound cs :=
  sound_behind fun _ => ⟨List.cons_ne_nil _ _, fun h => absurd (List.cons.inj h).1 ht⟩

theorem sound_nextBranch : (s.nextBranch.behind c).Sound cs := by
  unfold nextBranch
  split
  · exact sound_push_behind (by simp)
  · exact sound_behind nofun

theorem sound_closeGroup {s' : ParseState} (h : s.closeGroup = .ok s') :
    (s'.behind c).Sound cs := by
  unfold closeGroup at h
  split at h
  · cases h
  · cases h
    exact sound_behind fun _ => by simp

theorem sound_stars {d : Char} {tail : List Char} (hlast : (d :: tail).getLast? ≠ some '/') :
    (s.stars (d :: tail)).1.Sound (s.stars (d :: tail)).2 := by
  have htail : d = '/' → tail ≠ [] := by
    rintro rfl rfl
    exact hlast rfl
  rw [stars_cons]
  split
  · split
    · next hd => exact sound_behind fun _ => ⟨List.cons_ne_nil _ _, fun _ => htail hd⟩
    · exact sound_push_behind (by simp)
  split
  · exact sound_push_behind (by simp)
  split
  · next hd => exact sound_behind fun _ => ⟨tokens_pushStars_ne_nil _ _, fun _ => htail hd⟩
  split
  · next h => exact sound_behind fun hgroups => by simp_all
  · exact sound_push_behind (by simp)

theorem stars_suffix (s : ParseState) (d : Char) (tail : List Char) :
    (s.stars (d :: tail)).2 <:+ d :: tail := by
  rw [stars_cons]
  repeat' split
  all_goals simp

end ParseState

/-! ### Whole patterns -/

theorem readTokens_nil (fuel : Nat) (s : ParseState) : readTokens fuel s [] =
    if s.groups.isEmpty then .ok s.tokens.reverse else .error .unclosedAlternatives := by
  cases fuel <;> rfl

theorem readTokens_inside_nil (h : s.groups = [] → s.tokens ≠ [.leadingStars]) :
    readTokens fuel (s.inside dir) [] =
      (readTokens fuel s []).map (dir.reverse ++ behindSlash ·) := by
  rw [readTokens_nil, readTokens_nil, ParseState.isEmpty_groups_inside]
  obtain ⟨groups, tokens, prev⟩ := s
  cases groups with
  | nil => exact congrArg Except.ok (reverse_tokensInside (h rfl))
  | cons => rfl

theorem readTokens_trailing {prev prev' : Option Char} :
    readTokens fuel ⟨[], .trailingStars :: dir, prev⟩ [] =
      (readTokens fuel ⟨[], [.leadingStars], prev'⟩ []).map (dir.reverse ++ behindSlash ·) := by
  rw [readTokens_nil, readTokens_nil]
  simp [behindSlash, Except.map]

/-- Two stars that end the pattern. -/
theorem readTokens_stars_nil (hs : s.prev = none ↔ s.groups = [] ∧ s.tokens = []) :
    readTokens fuel ((s.inside dir).stars []).1 ((s.inside dir).stars []).2 =
      (readTokens fuel (s.stars []).1 (s.stars []).2).map (dir.reverse ++ behindSlash ·) := by
  rw [ParseState.stars_nil, ParseState.stars_nil]
  by_cases hprev : s.prev = none
  · obtain ⟨groups, tokens, prev⟩ := s
    obtain ⟨rfl, rfl⟩ := hs.1 hprev
    obtain rfl : prev = none := hprev
    exact readTokens_trailing
  · have hbegun : s.groups = [] → s.tokens ≠ [] := fun h h' => hprev (hs.2 ⟨h, h'⟩)
    rw [ParseState.isEmpty_tokens_inside hbegun, ParseState.atComponent_inside hprev]
    split
    · next htokens =>
      have hgroups : s.groups ≠ [] := fun h => hbegun h (List.isEmpty_iff.1 htokens)
      rw [← ParseState.inside_push (.inr hgroups)]
      exact readTokens_inside_nil fun h => absurd h hgroups
    split
    · rw [← ParseState.inside_push_star, ← ParseState.inside_behind]
      exact readTokens_inside_nil fun _ => by simp [ParseState.behind, ParseState.push]
    by_cases hlone : s.groups = [] ∧ s.tokens = [.leadingStars]
    · obtain ⟨groups, tokens, prev⟩ := s
      obtain ⟨rfl, rfl⟩ := hlone
      exact readTokens_trailing
    · have hne (hgroups : s.groups = []) : s.tokens ≠ [.leadingStars] := fun h => hlone ⟨hgroups, h⟩
      rw [← ParseState.inside_pushStars (.inr rfl) fun h => ⟨hbegun h, fun h' => absurd h' (hne h)⟩]
      exact readTokens_inside_nil fun h => s.tokens_pushStars_ne_lone (hne (by simpa using h))

theorem readClass_suffix {state : ClassState} {ranges : List (Char × Char)}
    (h : readClass state cs = .ok (ranges, rest)) : rest <:+ cs := by
  fun_induction readClass state cs with
  | case1 => cases h
  | case2 s c rest' hc ranges =>
    cases h
    exact List.suffix_cons _ _
  | case3 s c rest' _ _ ih => exact (ih h).trans (List.suffix_cons _ _)
  | case4 s c rest' _ _ s' _ ih => exact (ih h).trans (List.suffix_cons _ _)
  | case5 => cases h

theorem readBrackets_inv (h : readBrackets cs = .ok (t, rest)) :
    t ≠ .leadingStars ∧ rest <:+ cs := by
  unfold readBrackets at h
  split at h
  next negated body heq =>
    have hbody : body <:+ cs := by
      split at heq
      · cases heq
        exact List.suffix_cons _ _
      · cases heq
        exact List.suffix_cons _ _
      · cases heq
        exact List.suffix_rfl
    split at h
    · next hread =>
      cases h
      exact ⟨by simp, (readClass_suffix hread).trans hbody⟩
    · cases h

theorem readClass_error {state : ClassState} {e : SyntaxError}
    (h : readClass state cs = .error e) :
    e = .unclosedClass ∨ ∃ first last, e = .invalidRange first last := by
  fun_induction readClass state cs with
  | case1 =>
    cases h
    exact .inl rfl
  | case2 => cases h
  | case3 s c rest _ _ ih => exact ih h
  | case4 s c rest _ _ s' _ ih => exact ih h
  | case5 s c rest _ _ e' hpush =>
    cases h
    unfold ClassState.push at hpush
    split at hpush
    · split at hpush
      · cases hpush
        exact .inr ⟨_, _, rfl⟩
      · cases hpush
    · cases hpush

theorem readBrackets_error {e : SyntaxError} (h : readBrackets cs = .error e) :
    e = .unclosedClass ∨ ∃ first last, e = .invalidRange first last := by
  unfold readBrackets at h
  split at h
  split at h
  · cases h
  · next hread =>
    cases h
    exact readClass_error hread

theorem getLast?_ne_of_suffix {α : Type} {a : α} {xs ys : List α} (h : xs <:+ ys)
    (hlast : ys.getLast? ≠ some a) : xs.getLast? ≠ some a := by
  intro hxs
  obtain ⟨before, rfl⟩ := h
  exact hlast (by rw [List.getLast?_append, hxs]; rfl)

/-- Reading goes on behind a directory as it goes on without. The induction is on the characters
left; only the stars at the very beginning, as long as they are alone, are read otherwise. -/
theorem readTokens_inside (hfuel : cs.length ≤ fuel) (hs : s.Sound cs)
    (hlast : cs.getLast? ≠ some '/') :
    readTokens fuel (s.inside dir) cs =
      (readTokens fuel s cs).map (dir.reverse ++ behindSlash ·) := by
  have hne : ∀ c : Char, Token.literal c ≠ .leadingStars := by simp
  have htail : ∀ {c : Char} {rest : List Char}, (c :: rest).getLast? ≠ some '/' →
      rest.getLast? ≠ some '/' := getLast?_ne_of_suffix (List.suffix_cons _ _)
  -- each rule of the reader takes a state inside `dir` to one inside `dir`
  fun_induction readTokens fuel s cs with
  | case1 fuel s hgroups =>
    rw [readTokens_inside_nil fun h h' => hs.stars h h' rfl, readTokens_nil, if_pos hgroups]
  | case2 fuel s hgroups =>
    rw [readTokens_inside_nil fun h h' => hs.stars h h' rfl, readTokens_nil, if_neg hgroups]
  | case3 s c rest => simp at hfuel
  | case4 fuel s rest ih =>
    rw [readTokens, ← ParseState.inside_push (.inl (by simp)), ← ParseState.inside_behind]
    exact ih (Nat.le_of_succ_le_succ hfuel) (ParseState.sound_push_behind (by simp)) (htail hlast)
  | case5 fuel s rest s' rest' hstars ih =>
    rw [readTokens]
    have hlast' := htail (htail hlast)
    cases rest with
    | nil =>
      have hend : readTokens fuel ((s.inside dir).stars []).1 _ = _ := readTokens_stars_nil hs.begun
      rw [hstars] at hend
      exact hend
    | cons d tail =>
      have hsound := ParseState.sound_stars (s := s) hlast'
      have hsuffix := s.stars_suffix d tail
      rw [hstars] at hsound hsuffix
      have hlength := hsuffix.length_le
      rw [ParseState.stars_inside hs.begun, hstars]
      simp only [List.length_cons] at hfuel hlength
      exact ih (by omega) hsound (getLast?_ne_of_suffix hsuffix hlast')
  | case6 fuel s rest hrest ih =>
    rw [readTokens, ← ParseState.inside_push (.inl (by simp)), ← ParseState.inside_behind]
    · exact ih (Nat.le_of_succ_le_succ hfuel) (ParseState.sound_push_behind (by simp))
        (htail hlast)
    · exact hrest
  | case7 fuel s rest t rest' hread ih =>
    obtain ⟨ht, hsuffix⟩ := readBrackets_inv hread
    have hlength := hsuffix.length_le
    simp only [List.length_cons] at hfuel
    rw [readTokens, hread]
    simp only
    rw [← ParseState.inside_push (.inl ht), ← ParseState.inside_behind]
    exact ih (by omega) (ParseState.sound_push_behind ht)
      (getLast?_ne_of_suffix hsuffix (htail hlast))
  | case8 fuel s rest e hread =>
    rw [readTokens, hread]
    rfl
  | case9 fuel s rest ih =>
    rw [readTokens, ← ParseState.inside_openGroup, ← ParseState.inside_behind]
    exact ih (Nat.le_of_succ_le_succ hfuel) (ParseState.sound_behind nofun) (htail hlast)
  | case10 fuel s rest s' hclose ih =>
    rw [readTokens, ParseState.closeGroup_inside, hclose]
    simp only [Except.map]
    rw [← ParseState.inside_behind]
    exact ih (Nat.le_of_succ_le_succ hfuel) (ParseState.sound_closeGroup hclose) (htail hlast)
  | case11 fuel s rest e hclose =>
    rw [readTokens, ParseState.closeGroup_inside, hclose]
    rfl
  | case12 fuel s rest ih =>
    rw [readTokens, ← ParseState.inside_nextBranch, ← ParseState.inside_behind]
    exact ih (Nat.le_of_succ_le_succ hfuel) ParseState.sound_nextBranch (htail hlast)
  | case13 fuel s => rfl
  | case14 fuel s d rest ih =>
    rw [readTokens, ← ParseState.inside_push (.inl (hne d)), ← ParseState.inside_behind]
    simp only [List.length_cons] at hfuel
    exact ih (by omega) (ParseState.sound_push_behind (hne d)) (htail (htail hlast))
  | case15 fuel s rest c hany hstar hclass hopen hclose hcomma hescape ih =>
    rw [readTokens, ← ParseState.inside_push (.inl (hne c)), ← ParseState.inside_behind]
    · exact ih (Nat.le_of_succ_le_succ hfuel) (ParseState.sound_push_behind (hne c)) (htail hlast)
    all_goals assumption

/-- A character that stands for itself outside of groups. -/
def IsLiteral (c : Char) : Prop := isMeta c = false ∧ c ≠ '}' ∧ c ≠ '\\'

theorem readTokens_cons_of_isLiteral (hc : IsLiteral c) (hgroups : s.groups = []) :
    readTokens (fuel + 1) s (c :: cs) =
      readTokens fuel ((s.push (.literal c)).behind c) cs := by
  obtain ⟨hmeta, hclose, hescape⟩ := hc
  by_cases hcomma : c = ','
  · subst hcomma
    rw [readTokens, ParseState.nextBranch, hgroups]
  · simp only [isMeta, Bool.or_eq_false_iff, decide_eq_false_iff_not] at hmeta
    rw [readTokens] <;> simp_all

theorem readTokens_append {lits : List Char} (h : ∀ c ∈ lits, IsLiteral c)
    (hgroups : s.groups = []) :
    readTokens (lits.length + fuel) s (lits ++ cs) =
      readTokens fuel ⟨[], (lits.map .literal).reverse ++ s.tokens, lits.getLast?.or s.prev⟩
        cs := by
  induction lits generalizing s with
  | nil =>
    obtain ⟨groups, tokens, prev⟩ := s
    obtain rfl : groups = [] := hgroups
    simp
  | cons c lits ih =>
    obtain ⟨hc, hlits⟩ := List.forall_mem_cons.1 h
    rw [List.length_cons, Nat.add_right_comm, List.cons_append,
      readTokens_cons_of_isLiteral hc hgroups, ih hlits (by exact hgroups)]
    cases lits <;> simp [ParseState.push, ParseState.behind, List.getLast?_cons]

/-- What is read of a pattern behind a literal directory. -/
theorem parse_append {lits : List Char} (h : ∀ c ∈ lits, IsLiteral c)
    (hlast : cs.getLast? ≠ some '/') :
    parse (String.ofList (lits ++ '/' :: cs)) =
      (parse (String.ofList cs)).map (lits.map .literal ++ behindSlash ·) := by
  have hslash : ∀ c ∈ lits ++ ['/'], IsLiteral c :=
    List.forall_mem_append.2 ⟨h, List.forall_mem_singleton.2 ⟨rfl, by decide, by decide⟩⟩
  let start : ParseState := ⟨[], [], none⟩
  have hlits : readTokens ((lits ++ ['/']).length + cs.length) start ((lits ++ ['/']) ++ cs) =
      readTokens cs.length (start.inside (lits.map .literal).reverse) cs := by
    rw [readTokens_append hslash rfl]
    simp [start, ParseState.inside, tokensInside, groupsInside]
  have hrest : readTokens cs.length (start.inside (lits.map .literal).reverse) cs =
      (readTokens cs.length start cs).map
        ((lits.map .literal).reverse.reverse ++ behindSlash ·) :=
    readTokens_inside (Nat.le_refl _) ⟨by simp [start], by simp [start]⟩ hlast
  rw [List.reverse_reverse] at hrest
  rw [List.append_assoc, List.singleton_append] at hlits
  rw [parse, parse, String.toList_ofList, String.toList_ofList, ← hrest, ← hlits]
  simp [start, Nat.add_comm, Nat.add_left_comm]

end LspClient.Glob
