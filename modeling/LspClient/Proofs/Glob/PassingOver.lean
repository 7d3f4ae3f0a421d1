import LspClient.Glob.Expand

/-!
# What a search passes over

`splitSlash` and `joinSlash` are inverse to each other, and `splitLiteral` cuts the components of a
pattern in two. Those that lead to the base of a search and a slash are the beginning of the
pattern, and what is matched below the base is the rest of it (`toList_eq_joinSlash_append`).

An entry is reached only by entries that are taken themselves, and `.git` is never taken, nor is
`node_modules` unless the pattern names it (`passable_of_reaches`). So no name below the base is one
of these. The names that lead to the base are taken from the pattern as they are: with
`node_modules` among them the pattern names it, but `.git` can be among them.
-/

namespace LspClient.Glob

section Components

variable {cs part : List Char} {parts literal rest : List (List Char)}

/-! ### Splitting at slashes -/

theorem splitSlash_ne_nil (cs : List Char) : splitSlash cs ≠ [] := by
  cases cs with
  | nil => simp [splitSlash]
  | cons c cs =>
    rw [splitSlash]
    split
    · simp
    · split <;> simp

/-- The components of a list that begins with a character other than a slash. -/
theorem splitSlash_cons_of_ne {c : Char} (hc : c ≠ '/') (cs : List Char) :
    ∃ part parts, splitSlash cs = part :: parts ∧
      splitSlash (c :: cs) = (c :: part) :: parts := by
  cases hparts : splitSlash cs with
  | nil => exact absurd hparts (splitSlash_ne_nil cs)
  | cons part parts => exact ⟨part, parts, rfl, by rw [splitSlash, if_neg hc, hparts]⟩

theorem slash_notMem_of_mem_splitSlash (hpart : part ∈ splitSlash cs) : '/' ∉ part := by
  induction cs generalizing part with
  | nil =>
    obtain rfl : part = [] := by simpa [splitSlash] using hpart
    simp
  | cons c cs ih =>
    by_cases hc : c = '/'
    · rw [splitSlash, if_pos hc] at hpart
      obtain rfl | hpart := List.mem_cons.1 hpart
      · simp
      · exact ih hpart
    · obtain ⟨first, parts, hcs, hcons⟩ := splitSlash_cons_of_ne hc cs
      rw [hcons] at hpart
      obtain rfl | hpart := List.mem_cons.1 hpart
      · have hfirst : '/' ∉ first := ih (by simp [hcs])
        simp [Ne.symm hc, hfirst]
      · exact ih (by simp [hcs, hpart])

theorem splitSlash_of_notMem (h : '/' ∉ cs) : splitSlash cs = [cs] := by
  induction cs with
  | nil => rfl
  | cons c cs ih =>
    obtain ⟨hc, hcs⟩ : '/' ≠ c ∧ '/' ∉ cs := by simpa using h
    rw [splitSlash, if_neg (Ne.symm hc), ih hcs]

theorem splitSlash_append_slash (h : '/' ∉ part) (cs : List Char) :
    splitSlash (part ++ '/' :: cs) = part :: splitSlash cs := by
  induction part with
  | nil => simp [splitSlash]
  | cons c part ih =>
    obtain ⟨hc, hpart⟩ : '/' ≠ c ∧ '/' ∉ part := by simpa using h
    rw [List.cons_append, splitSlash, if_neg (Ne.symm hc), ih hpart]

/-! ### Joining -/

theorem joinSlash_cons (part : List Char) (h : parts ≠ []) :
    joinSlash (part :: parts) = part ++ '/' :: joinSlash parts := by
  cases parts with
  | nil => exact absurd rfl h
  | cons next parts => rfl

theorem joinSlash_append (hliteral : literal ≠ []) (hrest : rest ≠ []) :
    joinSlash (literal ++ rest) = joinSlash literal ++ '/' :: joinSlash rest := by
  induction literal with
  | nil => exact absurd rfl hliteral
  | cons part literal ih =>
    rw [List.cons_append, joinSlash_cons _ (by simp [hrest])]
    by_cases hnil : literal = []
    · subst hnil
      rfl
    · rw [ih hnil, joinSlash_cons _ hnil, List.append_assoc, List.cons_append]

@[simp] theorem joinSlash_splitSlash (cs : List Char) : joinSlash (splitSlash cs) = cs := by
  induction cs with
  | nil => rfl
  | cons c cs ih =>
    by_cases hc : c = '/'
    · rw [splitSlash, if_pos hc, joinSlash_cons _ (splitSlash_ne_nil cs), ih, hc, List.nil_append]
    · obtain ⟨part, parts, hcs, hcons⟩ := splitSlash_cons_of_ne hc cs
      rw [hcs] at ih
      rw [hcons, ← ih]
      cases parts <;> rfl

theorem splitSlash_joinSlash (hparts : parts ≠ []) (h : ∀ part ∈ parts, '/' ∉ part) :
    splitSlash (joinSlash parts) = parts := by
  induction parts with
  | nil => exact absurd rfl hparts
  | cons part parts ih =>
    obtain ⟨hpart, hrest⟩ := List.forall_mem_cons.1 h
    cases parts with
    | nil => exact splitSlash_of_notMem hpart
    | cons next parts =>
      rw [joinSlash_cons _ (by simp), splitSlash_append_slash hpart, ih (by simp) hrest]

theorem splitSlash_append (hliteral : literal ≠ []) (h : ∀ part ∈ literal, '/' ∉ part)
    (cs : List Char) :
    splitSlash (joinSlash literal ++ '/' :: cs) = literal ++ splitSlash cs := by
  induction literal with
  | nil => exact absurd rfl hliteral
  | cons part literal ih =>
    obtain ⟨hpart, hrest⟩ := List.forall_mem_cons.1 h
    by_cases hnil : literal = []
    · subst hnil
      exact splitSlash_append_slash hpart cs
    · rw [joinSlash_cons _ hnil, List.append_assoc, List.cons_append,
        splitSlash_append_slash hpart, ih hnil hrest, List.cons_append]

/-- Behind a slash at the end there is an empty component. -/
theorem nil_mem_splitSlash (h : cs.getLast? = some '/') : [] ∈ splitSlash cs := by
  obtain ⟨before, rfl⟩ := List.getLast?_eq_some_iff.1 h
  have hsplit := splitSlash_append (splitSlash_ne_nil before)
    (fun _ => slash_notMem_of_mem_splitSlash) []
  rw [joinSlash_splitSlash] at hsplit
  simp [hsplit, splitSlash]

theorem mem_joinSlash {c : Char} (h : c ∈ joinSlash parts) :
    c = '/' ∨ ∃ part ∈ parts, c ∈ part := by
  induction parts with
  | nil => cases h
  | cons part parts ih =>
    by_cases hnil : parts = []
    · subst hnil
      exact .inr ⟨part, List.mem_singleton_self _, h⟩
    · rw [joinSlash_cons _ hnil] at h
      obtain h | h := List.mem_append.1 h
      · exact .inr ⟨part, List.mem_cons_self, h⟩
      obtain rfl | h := List.mem_cons.1 h
      · exact .inl rfl
      · exact (ih h).imp_right fun ⟨p, hp, hc⟩ => ⟨p, List.mem_cons_of_mem _ hp, hc⟩

theorem isInfix_joinSlash (hpart : part ∈ parts) : part <:+: joinSlash parts := by
  induction parts with
  | nil => cases hpart
  | cons first parts ih =>
    by_cases hnil : parts = []
    · subst hnil
      obtain rfl : part = first := by simpa using hpart
      exact List.infix_rfl
    · rw [joinSlash_cons _ hnil]
      obtain rfl | hpart := List.mem_cons.1 hpart
      · exact (List.prefix_append _ _).isInfix
      · exact ((ih hpart).trans (List.suffix_cons _ _).isInfix).trans
          (List.suffix_append _ _).isInfix

/-- A component of a list is a piece of it. -/
theorem isInfix_of_mem_splitSlash (hpart : part ∈ splitSlash cs) : part <:+: cs := by
  have h := isInfix_joinSlash hpart
  rwa [joinSlash_splitSlash] at h

/-! ### Literal components -/

theorem splitLiteral_append (parts : List (List Char)) :
    (splitLiteral parts).1 ++ (splitLiteral parts).2 = parts := by
  fun_induction splitLiteral parts <;> simp_all

/-- Something is left to match. -/
theorem splitLiteral_snd_ne_nil (h : parts ≠ []) : (splitLiteral parts).2 ≠ [] := by
  fun_induction splitLiteral parts <;> simp_all

theorem hasMeta_of_mem_splitLiteral (h : part ∈ (splitLiteral parts).1) :
    hasMeta part = false := by
  fun_induction splitLiteral parts with
  | case1 => simp at h
  | case2 => simp at h
  | case3 => simp at h
  | case4 first parts hne hfirst literal rest hsplit ih =>
    obtain rfl | hpart := List.mem_cons.1 h
    · simpa using hfirst
    · exact ih (by simpa [hsplit] using hpart)

/-- The literal components that a pattern begins with, the last component apart. -/
def literalParts (pattern : String) : List (List Char) :=
  (splitLiteral (splitSlash pattern.toList)).1

/-- The components that are left to match. -/
def remainingParts (pattern : String) : List (List Char) :=
  (splitLiteral (splitSlash pattern.toList)).2

/-- The names of the directories that a pattern begins with. -/
def literalNames (pattern : String) : List String := (literalParts pattern).map String.ofList

theorem split_snd (root : Path) (pattern : String) :
    (split root pattern).2 = String.ofList (joinSlash (remainingParts pattern)) :=
  rfl

theorem literalParts_append (pattern : String) :
    literalParts pattern ++ remainingParts pattern = splitSlash pattern.toList :=
  splitLiteral_append _

theorem remainingParts_ne_nil (pattern : String) : remainingParts pattern ≠ [] :=
  splitLiteral_snd_ne_nil (splitSlash_ne_nil _)

theorem mem_splitSlash_of_mem_literalParts {pattern : String} (h : part ∈ literalParts pattern) :
    part ∈ splitSlash pattern.toList :=
  literalParts_append pattern ▸ List.mem_append_left _ h

theorem mem_splitSlash_of_mem_remainingParts {pattern : String}
    (h : part ∈ remainingParts pattern) : part ∈ splitSlash pattern.toList :=
  literalParts_append pattern ▸ List.mem_append_right _ h

theorem toList_eq_joinSlash_append {pattern : String} (h : literalParts pattern ≠ []) :
    pattern.toList =
      joinSlash (literalParts pattern) ++ '/' :: joinSlash (remainingParts pattern) := by
  rw [← joinSlash_append h (remainingParts_ne_nil pattern), literalParts_append,
    joinSlash_splitSlash]

theorem isInfix_of_mem_literalNames {pattern name : String}
    (h : name ∈ literalNames pattern) : name.toList <:+: pattern.toList := by
  obtain ⟨part, hpart, rfl⟩ := List.mem_map.1 h
  rw [String.toList_ofList]
  exact isInfix_of_mem_splitSlash (mem_splitSlash_of_mem_literalParts hpart)

end Components

variable {t : FileTree} {root base f : Path} {pattern : String} {loc : Location}
  {names : List String} {c : Choice} {tokens : List Token} {max : Nat} {e : Expansion}

/-! ### Entries on the way -/

/-- Whether a search may go by an entry of this name. -/
def Choice.Passable (c : Choice) (name : String) : Prop :=
  name ≠ ".git" ∧ (name = "node_modules" → c.includeModules = true)

theorem passable_of_takes {name : String} {isDir : Bool}
    (h : c.takes t (loc ++ [name]) isDir = true) : c.Passable name := by
  simp only [Choice.takes, List.getLast?_concat, Bool.and_eq_true, Bool.or_eq_true, bne_iff_ne,
    ne_eq] at h
  obtain ⟨⟨-, hgit⟩, hmodules⟩ := h
  exact ⟨hgit, fun hname => hmodules.resolve_right (· hname)⟩

/-- A search goes by passable names only, the name of what it reaches included. -/
theorem passable_of_reaches (h : c.reaches t loc names = true) :
    ∀ name ∈ names, c.Passable name := by
  fun_induction Choice.reaches c t loc names with
  | case1 => simp
  | case2 loc name =>
    obtain ⟨-, htakes⟩ := Bool.and_eq_true_iff.1 h
    simpa using passable_of_takes htakes
  | case3 loc name rest hrest ih =>
    obtain ⟨h, hreaches⟩ := Bool.and_eq_true_iff.1 h
    obtain ⟨-, htakes⟩ := Bool.and_eq_true_iff.1 h
    exact List.forall_mem_cons.2 ⟨passable_of_takes htakes, ih hreaches⟩

/-! ### What is found -/

/-- The file `f` is in the tree, by `names` from the directory that is at `base`. -/
structure LiesBelow (t : FileTree) (base : Path) (names : List String) (f : Path) : Prop where
  path : f = base.join ⟨"/".intercalate names⟩
  ne_nil : names ≠ []
  file : ∃ loc mode content fileMode, t.stat base = .ok (loc, .dir mode) ∧
    (loc ++ names, Node.file content fileMode) ∈ t.entries

theorem mem_below {node : Node} :
    (names, node) ∈ t.below loc ↔ (loc ++ names, node) ∈ t.entries ∧ names ≠ [] := by
  simp only [FileTree.below, List.mem_mergeSort, List.mem_filterMap, Prod.exists]
  constructor
  · rintro ⟨l, n, hmem, h⟩
    split at h
    · next hl =>
      obtain ⟨hpre, hne⟩ := hl
      obtain ⟨rest, rfl⟩ := List.isPrefixOf_iff_prefix.1 hpre
      cases h
      rw [List.drop_left]
      exact ⟨hmem, by simpa using hne⟩
    · cases h
  · rintro ⟨hmem, hne⟩
    exact ⟨loc ++ names, node, hmem, by simp [hne]⟩

theorem mem_search : f ∈ search t base tokens c ↔ ∃ loc mode names node,
    t.stat base = .ok (loc, .dir mode) ∧ (names, node) ∈ t.below loc ∧ node.isFile = true ∧
      c.reaches t loc names = true ∧
      isMatch tokens (Utf8.encode ("/".intercalate names)) = true ∧
      f = base.join ⟨"/".intercalate names⟩ := by
  rw [search]
  split
  · next loc mode hstat =>
    simp only [List.mem_filterMap, Prod.exists, hstat, Except.ok.injEq, Prod.mk.injEq,
      Node.dir.injEq]
    constructor
    · rintro ⟨names, node, hbelow, h⟩
      split at h
      · next hall =>
        simp only [Bool.and_eq_true] at hall
        exact ⟨loc, mode, names, node, ⟨rfl, rfl⟩, hbelow, hall.1.1, hall.1.2, hall.2,
          (Option.some.inj h).symm⟩
      · cases h
    · rintro ⟨_, _, names, node, ⟨rfl, rfl⟩, hbelow, hfile, hreaches, hmatch, rfl⟩
      exact ⟨names, node, hbelow, by simp [hfile, hreaches, hmatch]⟩
  -- what is no directory has nothing below it
  · next hother =>
    simp only [List.not_mem_nil, false_iff]
    rintro ⟨loc, mode, names, node, hstat, -⟩
    exact hother loc mode hstat

theorem liesBelow_of_mem_search (h : f ∈ search t base tokens c) :
    ∃ names, LiesBelow t base names f ∧ ∀ name ∈ names, c.Passable name := by
  obtain ⟨loc, mode, names, node, hstat, hbelow, hfile, hreaches, -, rfl⟩ := mem_search.1 h
  obtain ⟨hmem, hne⟩ := mem_below.1 hbelow
  cases node with
  | file content fileMode =>
    exact ⟨names, ⟨rfl, hne, loc, mode, content, fileMode, hstat, hmem⟩,
      passable_of_reaches hreaches⟩
  | dir => cases hfile
  | link => cases hfile

/-- What is listed for a pattern with a metacharacter is what a search found, be it with ignore
rules or without them. -/
theorem mem_search_of_expand (hmeta : hasMeta pattern.toList = true)
    (hok : expand t root pattern max = .ok e) (hf : f ∈ e.files) :
    ∃ tokens useIgnoreRules, parse (split root (normalize pattern)).2 = .ok tokens ∧
      f ∈ search t (split root (normalize pattern)).1 tokens
        ⟨namesModules (normalize pattern), useIgnoreRules⟩ := by
  simp only [expand, hmeta, Bool.not_true, Bool.false_and, Bool.false_eq_true, if_false] at hok
  split at hok
  · cases hok
  · next tokens hparse =>
    split at hok
    · cases hok
      exact ⟨tokens, false, hparse, List.mem_of_mem_take hf⟩
    · cases hok
      exact ⟨tokens, true, hparse, List.mem_of_mem_take hf⟩

/-- Where the heeding search finds something, that is what is listed. -/
theorem expand_of_search {remainder : String} {found : List Path}
    (hmeta : hasMeta pattern.toList = true)
    (hsplit : split root (normalize pattern) = (base, remainder))
    (hparse : parse remainder = .ok tokens)
    (hsearch : search t base tokens ⟨namesModules (normalize pattern), true⟩ = f :: found) :
    expand t root pattern max = .ok (.ofMatches (f :: found) max true) := by
  simp only [expand, hmeta, hsplit, hparse, hsearch, Bool.not_true, Bool.false_and,
    Bool.false_eq_true, if_false]

/-- Of the names that lead to a file which a pattern stands for, those below the directory that the
pattern begins with are never `.git`. None at all is `node_modules` unless the pattern names it. -/
theorem expand_passesOver (hmeta : hasMeta pattern.toList = true)
    (hok : expand t root pattern max = .ok e) (hf : f ∈ e.files) :
    ∃ names, LiesBelow t (split root (normalize pattern)).1 names f ∧ ".git" ∉ names ∧
      ("node_modules" ∈ literalNames (normalize pattern) ++ names →
        "node_modules".toList <:+: (normalize pattern).toList) := by
  obtain ⟨tokens, useIgnoreRules, -, hsearch⟩ := mem_search_of_expand hmeta hok hf
  obtain ⟨names, hlies, hpassable⟩ := liesBelow_of_mem_search hsearch
  refine ⟨names, hlies, fun hgit => (hpassable _ hgit).1 rfl, fun hmodules => ?_⟩
  obtain hliteral | hbelow := List.mem_append.1 hmodules
  · exact isInfix_of_mem_literalNames hliteral
  · exact String.contains_string_iff.1 ((hpassable _ hbelow).2 rfl)

/-- A working copy with its version control and the packages it uses. -/
def checkout : FileTree :=
  ⟨[([], .dir 0o755), (["r"], .dir 0o755), (["r", ".git"], .dir 0o755),
    (["r", ".git", "hook"], .file [] 0o644), (["r", "node_modules"], .dir 0o755),
    (["r", "node_modules", "lib"], .file [] 0o644)], [], 0o022⟩

theorem expand_passesOver_modules : hasMeta "node_modules/*".toList = true ∧
    expand checkout ⟨"/r"⟩ "node_modules/*" 20 = .ok ⟨[⟨"/r/node_modules/lib"⟩], 1, true⟩ ∧
    ∃ names, LiesBelow checkout ⟨"/r/node_modules"⟩ names ⟨"/r/node_modules/lib"⟩ ∧
      ".git" ∉ names := by
  have hmeta : hasMeta "node_modules/*".toList = true := by decide
  have hsplit : split ⟨"/r"⟩ (normalize "node_modules/*") = (⟨"/r/node_modules"⟩, "*") := by
    decide +kernel
  have hmodules : namesModules (normalize "node_modules/*") = true :=
    String.contains_string_iff.2 (by decide +kernel)
  have hparse : parse "*" = .ok [.star] := rfl
  have hsearch : search checkout ⟨"/r/node_modules"⟩ [.star] ⟨true, true⟩ =
      [⟨"/r/node_modules/lib"⟩] := by
    decide +kernel
  have hok : expand checkout ⟨"/r"⟩ "node_modules/*" 20 =
      .ok ⟨[⟨"/r/node_modules/lib"⟩], 1, true⟩ :=
    expand_of_search hmeta hsplit hparse (by rw [hmodules]; exact hsearch)
  obtain ⟨names, hlies, hgit, -⟩ := expand_passesOver hmeta hok (List.mem_singleton_self _)
  rw [hsplit] at hlies
  exact ⟨hmeta, hok, names, hlies, hgit⟩

/-- A pattern that begins with `.git` leads into it. -/
theorem expand_hook : hasMeta ".git/*".toList = true ∧
    expand checkout ⟨"/r"⟩ ".git/*" 20 = .ok ⟨[⟨"/r/.git/hook"⟩], 1, true⟩ := by
  have hmeta : hasMeta ".git/*".toList = true := by decide
  have hsplit : split ⟨"/r"⟩ (normalize ".git/*") = (⟨"/r/.git"⟩, "*") := by decide +kernel
  have hmodules : namesModules (normalize ".git/*") = false :=
    String.contains_string_eq_false_iff.2 (by decide +kernel)
  have hparse : parse "*" = .ok [.star] := rfl
  have hsearch : search checkout ⟨"/r/.git"⟩ [.star] ⟨false, true⟩ = [⟨"/r/.git/hook"⟩] := by
    decide +kernel
  exact ⟨hmeta, expand_of_search hmeta hsplit hparse (by rw [hmodules]; exact hsearch)⟩

end LspClient.Glob
