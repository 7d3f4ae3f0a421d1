import LspClient.Proofs.Glob.PassingOver
import LspClient.Proofs.Glob.Reading
import LspClient.Proofs.Text.Bytes

/-!
# Splitting a pattern

A pattern is matched from the directory that its literal beginning leads to. What it stands for is
the same: a path matches the pattern if it begins with the names of the literal components and the
rest of it, which is not empty, matches the remainder (`split_refines`).

Behind a slash the tokens of the remainder leave of a path what they leave of it alone
(`isMatch_behindSlash`), and characters of a path are told apart by their bytes
(`bytesOf_eq_append`).
-/

namespace LspClient.Glob

variable {t : Token} {ts : List Token} {s r : List UInt8} {cs lits : List Char}

/-! ### Matching from a directory on -/

theorem mem_rests_cons : r ∈ rests (t :: ts) s ↔ ∃ r' ∈ t.rests s, r ∈ rests ts r' := by
  rw [rests, List.mem_eraseDups, List.mem_flatMap]

theorem isMatch_iff (h : ts ≠ [.leadingStars]) : isMatch ts s = true ↔ [] ∈ rests ts s := by
  rw [isMatch.eq_2 _ _ h]
  simp

theorem mem_rests_literal {c : Char} :
    r ∈ (Token.literal c).rests s ↔ s = String.utf8EncodeChar c ++ r := by
  have hbytes : Utf8.encode (String.singleton c) = String.utf8EncodeChar c := by
    simp [Utf8.encode]
  rw [Token.rests, hbytes]
  split
  · next h =>
    obtain ⟨rest, rfl⟩ := List.isPrefixOf_iff_prefix.1 h
    simp [eq_comm]
  · next h =>
    simp only [List.not_mem_nil, false_iff]
    rintro rfl
    exact h (List.isPrefixOf_iff_prefix.2 (List.prefix_append _ _))

theorem nil_mem_rests_append :
    [] ∈ rests (lits.map .literal ++ ts) s ↔ ∃ r, s = bytesOf lits ++ r ∧ [] ∈ rests ts r := by
  induction lits generalizing s with
  | nil =>
    rw [bytesOf_nil]
    simp
  | cons c lits ih =>
    rw [List.map_cons, List.cons_append, mem_rests_cons]
    simp only [mem_rests_literal, ih, bytesOf_cons, List.append_assoc]
    constructor
    · rintro ⟨r, rfl, r', rfl, h⟩
      exact ⟨r', rfl, h⟩
    · rintro ⟨r', rfl, h⟩
      exact ⟨_, rfl, r', rfl, h⟩

theorem nil_mem_restsWhile (s : List UInt8) : [] ∈ restsWhile (fun _ => true) s := by
  induction s with
  | nil => simp [restsWhile]
  | cons b s ih => simp [restsWhile, ih]

theorem mem_rests_slash : r ∈ (Token.literal '/').rests s ↔ s = slash :: r :=
  mem_rests_literal

theorem nil_mem_rests_trailing :
    [] ∈ Token.trailingStars.rests s ↔ ∃ r, s = slash :: r := by
  cases s with
  | nil => simp [Token.rests]
  | cons b rest =>
    rw [Token.rests]
    by_cases hb : b = slash
    · simp [hb, nil_mem_restsWhile]
    · simp [hb]

/-- Two stars behind a slash leave what they leave of a path at its beginning. -/
theorem mem_rests_inner :
    r ∈ Token.innerStars.rests s ↔ ∃ s', s = slash :: s' ∧ r ∈ Token.leadingStars.rests s' := by
  cases s with
  | nil => simp [Token.rests]
  | cons b rest =>
    rw [Token.rests]
    by_cases hb : b = slash
    · simp [hb, Token.rests]
    · simp [hb]

theorem nil_mem_rests_behindSlash :
    [] ∈ rests (behindSlash ts) s ↔ ∃ r, s = slash :: r ∧ isMatch ts r = true := by
  fun_cases behindSlash ts with
  | case1 =>
    have hnil : ∀ r : List UInt8, [] ∈ rests [] r ↔ [] = r := fun r => by simp [rests]
    simp [mem_rests_cons, hnil, nil_mem_rests_trailing, isMatch]
  | case2 ts hne =>
    have hlone : Token.leadingStars :: ts ≠ [.leadingStars] := by simpa using hne
    simp only [isMatch_iff hlone, mem_rests_cons, mem_rests_inner]
    constructor
    · rintro ⟨r', ⟨s', rfl, hr'⟩, h⟩
      exact ⟨s', rfl, r', hr', h⟩
    · rintro ⟨s', rfl, r', hr', h⟩
      exact ⟨r', ⟨s', rfl, hr'⟩, h⟩
  | case3 ts hlone hlead =>
    simp only [isMatch_iff hlone, mem_rests_cons, mem_rests_slash]

theorem append_behindSlash_ne : lits.map .literal ++ behindSlash ts ≠ [.leadingStars] := by
  cases lits with
  | nil => fun_cases behindSlash ts <;> simp
  | cons => simp

theorem isMatch_append :
    isMatch (lits.map .literal ++ behindSlash ts) s = true ↔
      ∃ r, s = bytesOf lits ++ slash :: r ∧ isMatch ts r = true := by
  rw [isMatch_iff append_behindSlash_ne, nil_mem_rests_append]
  simp only [nil_mem_rests_behindSlash]
  constructor
  · rintro ⟨_, rfl, r, rfl, h⟩
    exact ⟨r, rfl, h⟩
  · rintro ⟨r, rfl, h⟩
    exact ⟨_, rfl, r, rfl, h⟩

/-! ### Names -/

/-- Whether the path that goes by `names` matches. -/
def Matches (pattern : String) (names : List String) : Prop :=
  ∃ tokens, parse pattern = .ok tokens ∧
    isMatch tokens (Utf8.encode ("/".intercalate names)) = true

theorem toList_intercalate (names : List String) :
    ("/".intercalate names).toList = joinSlash (names.map String.toList) := by
  have h : ("/".intercalate names).toList = ['/'].intercalate (names.map String.toList) :=
    String.toList_intercalate
  rw [h]
  generalize names.map String.toList = parts
  induction parts with
  | nil => rfl
  | cons part parts ih =>
    by_cases hnil : parts = []
    · subst hnil
      simp [List.intercalate, joinSlash]
    · obtain ⟨next, parts, rfl⟩ := List.exists_cons_of_ne_nil hnil
      rw [joinSlash_cons _ hnil, ← ih]
      simp [List.intercalate]

/-- What begins with the bytes of some characters begins with the characters. -/
theorem bytesOf_eq_append (h : bytesOf cs = bytesOf lits ++ r) :
    ∃ rest, cs = lits ++ rest ∧ r = bytesOf rest := by
  have hdecode := Utf8.decodeChars_bytesOf cs
  rw [h, Utf8.decodeChars, Utf8.decodeFrom_bytesOf] at hdecode
  obtain ⟨rest, rfl⟩ := Utf8.decodeFrom_ok hdecode
  rw [List.append_nil, List.reverse_reverse, bytesOf_append] at h
  exact ⟨rest, by simp, (List.append_cancel_left h).symm⟩

theorem bytesOf_append_slash (lits cs : List Char) :
    bytesOf (lits ++ '/' :: cs) = bytesOf lits ++ slash :: bytesOf cs :=
  bytesOf_append _ _

theorem bytesOf_eq_append_slash (h : bytesOf cs = bytesOf lits ++ slash :: r) :
    ∃ rest, cs = lits ++ '/' :: rest ∧ r = bytesOf rest := by
  have h' : bytesOf cs = bytesOf (lits ++ ['/']) ++ r := by
    rw [bytesOf_append_slash, h, List.append_assoc]
    rfl
  obtain ⟨rest, rfl, rfl⟩ := bytesOf_eq_append h'
  exact ⟨rest, by simp, rfl⟩

/-- A relative pattern that can be cut between any two of its components: each of them is more than
a dot, and no literal one at the beginning ends a group. -/
structure Divisible (pattern : String) : Prop where
  parts : ∀ part ∈ splitSlash pattern.toList, part ≠ [] ∧ part ≠ ['.']
  braces : ∀ part ∈ literalParts pattern, '}' ∉ part

variable {pattern : String} {root : Path} {names : List String}

theorem backslash_notMem_normalize (typed : String) : '\\' ∉ (normalize typed).toList := by
  have hslashes (cs : List Char) : '\\' ∉ cs.map fun c => if c = '\\' then '/' else c := by
    simp only [List.mem_map, not_exists, not_and]
    intro c _
    split <;> simp_all
  rw [normalize, String.toList_ofList, normalizeChars, closeBraces, List.mem_append, not_or]
  refine ⟨?_, by simp⟩
  split
  · exact hslashes _
  · simpa using hslashes _

theorem isLiteral_of_mem_joinSlash (h : Divisible pattern) (hescape : '\\' ∉ pattern.toList)
    {c : Char} (hc : c ∈ joinSlash (literalParts pattern)) : IsLiteral c := by
  obtain rfl | ⟨part, hpart, hc⟩ := mem_joinSlash hc
  · exact ⟨rfl, by decide, by decide⟩
  · have hmeta : hasMeta part = false := hasMeta_of_mem_splitLiteral hpart
    have hpiece := isInfix_of_mem_splitSlash (mem_splitSlash_of_mem_literalParts hpart)
    refine ⟨by simpa using List.any_eq_false.1 hmeta c hc, ?_, ?_⟩
    · rintro rfl
      exact h.braces part hpart hc
    · rintro rfl
      exact hescape (hpiece.subset hc)

theorem getLast?_remaining (h : Divisible pattern) :
    (joinSlash (remainingParts pattern)).getLast? ≠ some '/' := by
  intro hlast
  have hsplit := splitSlash_joinSlash (remainingParts_ne_nil pattern) fun part hpart =>
    slash_notMem_of_mem_splitSlash (mem_splitSlash_of_mem_remainingParts hpart)
  have hnil := nil_mem_splitSlash hlast
  rw [hsplit] at hnil
  exact (h.parts [] (mem_splitSlash_of_mem_remainingParts hnil)).1 rfl

theorem parse_split (h : Divisible pattern) (hescape : '\\' ∉ pattern.toList)
    (hliteral : literalParts pattern ≠ []) (root : Path) :
    parse pattern = (parse (split root pattern).2).map
      ((joinSlash (literalParts pattern)).map .literal ++ behindSlash ·) := by
  have hparse := parse_append (fun c => isLiteral_of_mem_joinSlash h hescape) (getLast?_remaining h)
  rwa [← toList_eq_joinSlash_append hliteral, String.ofList_toList] at hparse

theorem map_toList_map_ofList (parts : List (List Char)) :
    (parts.map String.ofList).map String.toList = parts := by
  simp

/-- A path matches behind literal names if it begins with them and the rest of it matches. -/
theorem isMatch_names (hliteral : literalParts pattern ≠ []) (hne : names ≠ [])
    (hnames : ∀ name ∈ names, '/' ∉ name.toList) :
    isMatch ((joinSlash (literalParts pattern)).map .literal ++ behindSlash ts)
        (Utf8.encode ("/".intercalate names)) = true ↔
      ∃ rest ≠ [], names = literalNames pattern ++ rest ∧
        isMatch ts (Utf8.encode ("/".intercalate rest)) = true := by
  simp only [isMatch_append, encode_eq_bytesOf, toList_intercalate]
  constructor
  · rintro ⟨r, hbytes, hmatch⟩
    obtain ⟨cs, hcs, rfl⟩ := bytesOf_eq_append_slash hbytes
    have hsplit : splitSlash (joinSlash (names.map String.toList)) = names.map String.toList :=
      splitSlash_joinSlash (by simpa using hne) (by simpa using hnames)
    rw [hcs, splitSlash_append hliteral fun _ hpart =>
      slash_notMem_of_mem_splitSlash (mem_splitSlash_of_mem_literalParts hpart)] at hsplit
    refine ⟨(splitSlash cs).map String.ofList, by simp [splitSlash_ne_nil], ?_, ?_⟩
    · have hnames' := congrArg (List.map String.ofList) hsplit
      simpa [literalNames] using hnames'.symm
    · rwa [map_toList_map_ofList, joinSlash_splitSlash]
  · rintro ⟨rest, hrest, rfl, hmatch⟩
    refine ⟨_, ?_, hmatch⟩
    rw [List.map_append, literalNames, map_toList_map_ofList,
      joinSlash_append hliteral (by simpa using hrest), bytesOf_append_slash]

theorem split_snd_of_nil (hliteral : literalParts pattern = []) (root : Path) :
    (split root pattern).2 = pattern := by
  have hwhole := literalParts_append pattern
  rw [hliteral, List.nil_append] at hwhole
  rw [split_snd, hwhole, joinSlash_splitSlash, String.ofList_toList]

/-- What matches a pattern is the literal names with what matches the remainder behind them. -/
theorem matches_split (h : Divisible pattern) (hescape : '\\' ∉ pattern.toList)
    (hne : names ≠ []) (hnames : ∀ name ∈ names, '/' ∉ name.toList) :
    Matches pattern names ↔ ∃ rest ≠ [], names = literalNames pattern ++ rest ∧
      Matches (split root pattern).2 rest := by
  by_cases hliteral : literalParts pattern = []
  · rw [split_snd_of_nil hliteral, literalNames, hliteral]
    constructor
    · exact fun hmatch => ⟨names, hne, rfl, hmatch⟩
    · rintro ⟨rest, -, rfl, hmatch⟩
      exact hmatch
  · rw [Matches, parse_split h hescape hliteral root]
    cases hparse : parse (split root pattern).2 with
    | error e => simp [Matches, hparse, Except.map]
    | ok tokens => simp [Matches, hparse, Except.map, isMatch_names hliteral hne hnames]

/-! ### Paths -/

/-- A name that an entry of a directory can have. -/
def IsName (name : String) : Prop := name ≠ "" ∧ '/' ∉ name.toList

theorem foldl_enter {parts : List (List Char)} (h : ∀ part ∈ parts, part ≠ [] ∧ part ≠ ['.'])
    (base : Path) : parts.foldl enter base =
      (parts.map String.ofList).foldl (fun base name => base.join ⟨name⟩) base := by
  induction parts generalizing base with
  | nil => rfl
  | cons part parts ih =>
    obtain ⟨hpart, hparts⟩ := List.forall_mem_cons.1 h
    rw [List.foldl_cons, ih hparts, enter, if_neg (by simp [hpart]), List.map_cons,
      List.foldl_cons]

/-- The base of a search is where the literal names lead to from the root. -/
theorem split_fst (h : Divisible pattern) (root : Path) :
    (split root pattern).1 =
      (literalNames pattern).foldl (fun base name => base.join ⟨name⟩) root := by
  have hparts : ∀ part ∈ literalParts pattern, part ≠ [] ∧ part ≠ ['.'] := fun part hpart =>
    h.parts part (mem_splitSlash_of_mem_literalParts hpart)
  have hbase : (split root pattern).1 = (literalParts pattern).foldl enter root := by
    unfold split
    dsimp only
    split
    · next heq => exact absurd rfl (hparts [] (by simp [literalParts, heq])).1
    · rfl
  rw [hbase, foldl_enter hparts, literalNames]

/-- What stands between the text of a path and what is joined to it. -/
def separator (base : Path) : String := if base.chars.getLast?.any (· ≠ '/') then "/" else ""

theorem join_of_relative {p : Path} (hp : p.isAbsolute = false) (base : Path) :
    base.join p = ⟨base.text ++ separator base ++ p.text⟩ := by
  rw [Path.join, hp, separator]
  simp only [Bool.false_eq_true, if_false]
  split <;> simp

/-- A text that begins with a name is a relative path. -/
theorem IsName.isAbsolute {name text : String} (hname : IsName name) {cs : List Char}
    (htext : text.toList = name.toList ++ cs) : (Path.mk text).isAbsolute = false := by
  rw [Path.isAbsolute, Path.chars, htext, beq_eq_false_iff_ne,
    List.head?_append_of_ne_nil _ (by simpa using hname.1)]
  exact fun h => hname.2 (List.mem_of_head? h)

theorem separator_join {name : String} (hname : IsName name) (base : Path) :
    separator (base.join ⟨name⟩) = "/" := by
  have hne : name.toList ≠ [] := by simpa using hname.1
  have hlast : name.toList.getLast hne ≠ '/' := fun h => hname.2 (h ▸ List.getLast_mem hne)
  rw [join_of_relative (hname.isAbsolute (List.append_nil _).symm), separator, if_pos]
  simp [Path.chars, String.toList_append, List.getLast?_append,
    List.getLast?_eq_some_getLast hne, hlast]

theorem join_join {name : String} (hname : IsName name) {p : Path} (hp : p.isAbsolute = false)
    (base : Path) : (base.join ⟨name⟩).join p = base.join ⟨name ++ "/" ++ p.text⟩ := by
  have hlonger : (Path.mk (name ++ "/" ++ p.text)).isAbsolute = false :=
    hname.isAbsolute (by rw [String.append_assoc, String.toList_append])
  rw [join_of_relative hp, separator_join hname, join_of_relative hlonger,
    join_of_relative (hname.isAbsolute (List.append_nil _).symm)]
  simp only [String.append_assoc]

theorem intercalate_cons (name : String) {names : List String} (h : names ≠ []) :
    "/".intercalate (name :: names) = name ++ "/" ++ "/".intercalate names := by
  apply String.toList_injective
  rw [toList_intercalate, String.toList_append, String.toList_append, toList_intercalate,
    List.map_cons, joinSlash_cons _ (by simpa using h), List.append_assoc]
  rfl

theorem isAbsolute_intercalate (hnames : ∀ name ∈ names, IsName name) :
    (Path.mk ("/".intercalate names)).isAbsolute = false := by
  cases names with
  | nil => rfl
  | cons name names =>
    have hname := hnames name List.mem_cons_self
    by_cases hnil : names = []
    · subst hnil
      exact hname.isAbsolute (List.append_nil _).symm
    · exact hname.isAbsolute (by
        rw [intercalate_cons _ hnil, String.append_assoc, String.toList_append])

theorem join_intercalate {names rest : List String} (hnames : ∀ name ∈ names ++ rest, IsName name)
    (hrest : rest ≠ []) (base : Path) :
    (names.foldl (fun base name => base.join ⟨name⟩) base).join ⟨"/".intercalate rest⟩ =
      base.join ⟨"/".intercalate (names ++ rest)⟩ := by
  induction names generalizing base with
  | nil => rfl
  | cons name names ih =>
    rw [List.cons_append] at hnames ⊢
    obtain ⟨hname, hnames⟩ := List.forall_mem_cons.1 hnames
    rw [List.foldl_cons, ih hnames, join_join hname (isAbsolute_intercalate hnames),
      intercalate_cons name (by simp [hrest])]

/-! ### Searches -/

theorem mem_search_split {t : FileTree} {loc : Location} {mode : Nat} {tokens : List Token}
    {c : Choice} {f : Path} (h : Divisible pattern) (hescape : '\\' ∉ pattern.toList)
    (hnamed : ∀ entry ∈ t.entries, ∀ name ∈ entry.1, IsName name)
    (hstat : t.stat (split root pattern).1 = .ok (loc ++ literalNames pattern, .dir mode))
    (hparse : parse (split root pattern).2 = .ok tokens) :
    f ∈ search t (split root pattern).1 tokens c ↔ ∃ names node, (names, node) ∈ t.below loc ∧
      node.isFile = true ∧ Matches pattern names ∧
      c.reaches t (loc ++ literalNames pattern) (names.drop (literalNames pattern).length) = true ∧
      f = root.join ⟨"/".intercalate names⟩ := by
  rw [mem_search]
  constructor
  · rintro ⟨loc', mode', rest, node, hstat', hbelow, hfile, hreaches, hmatch, rfl⟩
    obtain ⟨rfl, -⟩ := Prod.mk.inj (Except.ok.inj (hstat.symm.trans hstat'))
    obtain ⟨hmem, hrest⟩ := mem_below.1 hbelow
    rw [List.append_assoc] at hmem
    have hnames : ∀ name ∈ literalNames pattern ++ rest, IsName name := fun name hname =>
      hnamed _ hmem name (List.mem_append_right _ hname)
    have hne : literalNames pattern ++ rest ≠ [] := by simp [hrest]
    refine ⟨literalNames pattern ++ rest, node, mem_below.2 ⟨hmem, hne⟩, hfile, ?_, ?_, ?_⟩
    · rw [matches_split h hescape hne fun name hname => (hnames name hname).2]
      exact ⟨rest, hrest, rfl, tokens, hparse, hmatch⟩
    · rwa [List.drop_left]
    · rw [split_fst h, join_intercalate hnames hrest]
  · rintro ⟨names, node, hbelow, hfile, hmatch, hreaches, rfl⟩
    obtain ⟨hmem, hne⟩ := mem_below.1 hbelow
    have hnames : ∀ name ∈ names, IsName name := fun name hname =>
      hnamed _ hmem name (List.mem_append_right _ hname)
    obtain ⟨rest, hrest, rfl, tokens', hparse', hmatch⟩ :=
      (matches_split h hescape hne fun name hname => (hnames name hname).2).1 hmatch
    obtain rfl := Except.ok.inj (hparse.symm.trans hparse')
    rw [List.drop_left] at hreaches
    rw [← List.append_assoc] at hmem
    refine ⟨_, mode, rest, node, hstat, mem_below.2 ⟨hmem, hrest⟩, hfile, hreaches, hmatch, ?_⟩
    rw [split_fst h, join_intercalate hnames hrest]

/-! ### Normalised patterns -/

theorem parse_split_error (h : Divisible pattern) (hescape : '\\' ∉ pattern.toList)
    (root : Path) (e : SyntaxError) :
    parse pattern = .error e ↔ parse (split root pattern).2 = .error e := by
  by_cases hliteral : literalParts pattern = []
  · rw [split_snd_of_nil hliteral]
  · rw [parse_split h hescape hliteral root]
    cases parse (split root pattern).2 <;> simp [Except.map]

/-- Cutting a pattern in two changes nothing of what it stands for: whether it can be read, which
paths match, and what a search below the base finds. -/
theorem split_refines {typed : String} (hnormal : normalize typed = pattern)
    (h : Divisible pattern) (root : Path) :
    (∀ e, parse pattern = .error e ↔ parse (split root pattern).2 = .error e) ∧
    (∀ names ≠ [], (∀ name ∈ names, IsName name) →
      (Matches pattern names ↔ ∃ rest ≠ [], names = literalNames pattern ++ rest ∧
        Matches (split root pattern).2 rest)) ∧
    ∀ t loc mode tokens c f, (∀ entry ∈ FileTree.entries t, ∀ name ∈ entry.1, IsName name) →
      t.stat (split root pattern).1 = .ok (loc ++ literalNames pattern, .dir mode) →
      parse (split root pattern).2 = .ok tokens →
      (f ∈ search t (split root pattern).1 tokens c ↔
        ∃ names node, (names, node) ∈ t.below loc ∧ node.isFile = true ∧
          Matches pattern names ∧
          c.reaches t (loc ++ literalNames pattern)
            (names.drop (literalNames pattern).length) = true ∧
          f = root.join ⟨"/".intercalate names⟩) := by
  have hescape : '\\' ∉ pattern.toList := hnormal ▸ backslash_notMem_normalize typed
  refine ⟨parse_split_error h hescape root, fun names hne hnames => ?_,
    fun t loc mode tokens c f hnamed hstat hparse => ?_⟩
  · exact matches_split h hescape hne fun name hname => (hnames name hname).2
  · exact mem_search_split h hescape hnamed hstat hparse

theorem split_refines_alternatives :
    normalize "src/{a,b/c}/**/*.rs" = "src/{a,b/c}/**/*.rs" ∧ Divisible "src/{a,b/c}/**/*.rs" ∧
    Matches "{a,b/c}/**/*.rs" ["b", "c", "x.rs"] ∧
    Matches "src/{a,b/c}/**/*.rs" ["src", "b", "c", "x.rs"] := by
  have hnormal : normalize "src/{a,b/c}/**/*.rs" = "src/{a,b/c}/**/*.rs" := by decide +kernel
  have hdivisible : Divisible "src/{a,b/c}/**/*.rs" := ⟨by decide +kernel, by decide +kernel⟩
  have hsplit : split ⟨"/r"⟩ "src/{a,b/c}/**/*.rs" = (⟨"/r/src"⟩, "{a,b/c}/**/*.rs") := by
    decide +kernel
  have hliteral : literalNames "src/{a,b/c}/**/*.rs" = ["src"] := by decide +kernel
  have hrest : Matches "{a,b/c}/**/*.rs" ["b", "c", "x.rs"] := ⟨_, rfl, by decide +kernel⟩
  obtain ⟨-, hmatches, -⟩ := split_refines hnormal hdivisible ⟨"/r"⟩
  refine ⟨hnormal, hdivisible, hrest, (hmatches _ (by simp) (by simp [IsName])).2 ?_⟩
  exact ⟨["b", "c", "x.rs"], by simp, by rw [hliteral]; rfl, by rwa [hsplit]⟩

end LspClient.Glob
