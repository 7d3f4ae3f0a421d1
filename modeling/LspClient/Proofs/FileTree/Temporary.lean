import LspClient.Proofs.FileTree.Following
import LspClient.Proofs.FileTree.Names
import Mathlib.Data.List.Nodup
import Mathlib.Data.List.Perm.Subperm

/-!
# Temporary files

A file is replaced by way of a temporary one. The directories above its path are made first, and
add nothing but directories that this path and those above it name (`grows_makeDirs`). The
temporary file is at a location that was free (`get?_freshName`), in the directory that the path
itself leads to (`loc_eq_of_slot`).
-/

namespace LspClient.FileTree

variable {t t' t'' : FileTree} {p q : Path} {loc target l : Location} {name : String}
  {node dir : Node} {e : FileError}

/-! ### A name that is free -/

def temporaryName (i : Nat) : String := s!".tmp{i}"

theorem temporaryName_toList (i : Nat) :
    (temporaryName i).toList = '.' :: 't' :: 'm' :: 'p' :: Nat.toDigits 10 i := by
  have h : temporaryName i = ".tmp" ++ Nat.repr i := rfl
  rw [h, String.toList_append, Nat.toList_repr]
  rfl

theorem temporaryName_injective {i j : Nat} (h : temporaryName i = temporaryName j) : i = j := by
  have hlist := congrArg String.toList h
  rw [temporaryName_toList, temporaryName_toList] at hlist
  have hdigits : Nat.toDigits 10 i = Nat.toDigits 10 j := by simpa using hlist
  rw [← Nat.ofDigitChars_ten_toDigits (n := i), hdigits, Nat.ofDigitChars_ten_toDigits]

theorem mem_temporaryName {i : Nat} {c : Char} (h : c ∈ (temporaryName i).toList) :
    c ∈ ['.', 't', 'm', 'p'] ∨ c.isDigit = true := by
  rw [temporaryName_toList] at h
  simp only [List.mem_cons] at h ⊢
  rcases h with h | h | h | h | h
  · simp [h]
  · simp [h]
  · simp [h]
  · simp [h]
  · exact .inr (Nat.isDigit_of_mem_toDigits (by decide) (by decide) h)

theorem not_mem_temporaryName {c : Char} (hc : c ∉ ['.', 't', 'm', 'p'])
    (hdigit : c.isDigit = false) (i : Nat) : c ∉ (temporaryName i).toList := by
  intro h
  rcases mem_temporaryName h with h | h
  · exact hc h
  · rw [hdigit] at h
    cases h

theorem temporaryName_ne (i : Nat) :
    temporaryName i ≠ "" ∧ temporaryName i ≠ "." ∧ temporaryName i ≠ ".." := by
  have h := temporaryName_toList i
  refine ⟨?_, ?_, ?_⟩
  all_goals
    intro heq
    rw [heq] at h
    simp at h

theorem exists_freshName (t : FileTree) (loc : Location) (n i : Nat) :
    ∃ j, t.freshName loc n i = temporaryName j := by
  induction n generalizing i with
  | zero => exact ⟨i, rfl⟩
  | succ n ih =>
    rw [freshName]
    split
    · exact ih (i + 1)
    · exact ⟨i, rfl⟩

/-- A name that is not free was the last to be tried. -/
theorem taken_of_freshName {n i : Nat} (h : t.get? (loc ++ [t.freshName loc n i]) ≠ none) :
    ∀ j, i ≤ j → j ≤ i + n → t.get? (loc ++ [temporaryName j]) ≠ none := by
  induction n generalizing i with
  | zero =>
    intro j hij hj
    obtain rfl : i = j := by omega
    exact h
  | succ n ih =>
    intro j hij hj
    rw [freshName] at h
    split at h
    · next htaken =>
      rcases Nat.eq_or_lt_of_le hij with rfl | hlt
      · intro hnone
        rw [show s!".tmp{i}" = temporaryName i from rfl, hnone] at htaken
        cases htaken
      · exact ih h j hlt (by omega)
    · next hfree => exact absurd (by simpa using hfree) h

/-- There are more names to be tried than entries. -/
theorem get?_freshName (t : FileTree) (loc : Location) :
    t.get? (loc ++ [t.freshName loc t.entries.length 0]) = none := by
  by_contra hne
  have htaken := taken_of_freshName hne
  let tried := (List.range (t.entries.length + 1)).map fun j => loc ++ [temporaryName j]
  have hnodup : tried.Nodup := by
    refine List.Nodup.map (fun i j hij => ?_) List.nodup_range
    exact temporaryName_injective (by simpa using hij)
  have hsub : tried ⊆ t.entries.map (·.1) := by
    intro l hl
    obtain ⟨j, hj, rfl⟩ := List.mem_map.1 hl
    rw [List.mem_range] at hj
    obtain ⟨node, hnode⟩ := Option.ne_none_iff_exists'.1 (htaken j (Nat.zero_le j) (by omega))
    obtain ⟨l₁, l₂, hentries, -⟩ := List.lookup_eq_some_iff.1 hnode
    simp [hentries]
  have hle := (List.subperm_of_subset hnodup hsub).length_le
  simp only [tried, List.length_map, List.length_range] at hle
  omega

/-! ### Directories that are made -/

/-- The second tree has what the first one has, and directories that the paths `qs` name. -/
structure Grows (qs : List Path) (t t' : FileTree) : Prop where
  keeps : t.Extends t'
  wellFormed : t.WellFormed → t'.WellFormed
  new : ∀ l node, t'.get? l = some node → t.get? l = some node ∨
    (t.get? l = none ∧ node.isDir = true ∧ ∃ q ∈ qs, t'.Names q l)

variable {qs qs' : List Path}

theorem Grows.refl (qs : List Path) (t : FileTree) : Grows qs t t :=
  ⟨.refl t, fun h => h, fun _ _ h => .inl h⟩

theorem Grows.trans (h : Grows qs t t') (h' : Grows qs' t' t'') (hqs : ∀ q ∈ qs, q ∈ qs') :
    Grows qs' t t'' := by
  refine ⟨h.keeps.trans h'.keeps, fun hwf => h'.wellFormed (h.wellFormed hwf),
    fun l node hl => ?_⟩
  rcases h'.new l node hl with hl' | ⟨hnone, hisDir, q, hq, hnames⟩
  · rcases h.new l node hl' with hold | ⟨hnone, hisDir, q, hq, hnames⟩
    · exact .inl hold
    · exact .inr ⟨hnone, hisDir, q, hqs q hq, hnames.mono h'.keeps.keepsWays⟩
  · refine .inr ⟨?_, hisDir, q, hq, hnames⟩
    by_contra hne
    obtain ⟨node', hnode'⟩ := Option.ne_none_iff_exists'.1 hne
    rw [h.keeps.get? l node' hnode'] at hnone
    cases hnone

theorem grows_makeDir (h : t.makeDir p = .ok t') (hp : p ∈ qs) : Grows qs t t' := by
  unfold makeDir at h
  cases hslot : t.slot p .alreadyExists with
  | error e =>
    rw [hslot] at h
    cases h
  | ok x =>
    obtain ⟨loc, dir, name⟩ := x
    rw [hslot] at h
    change (if (t.get? (loc ++ [name])).isSome then _ else if !dir.writable then _ else _) = _ at h
    split at h
    · cases h
    next hfree =>
    split at h
    · cases h
    cases h
    have hnone : t.get? (loc ++ [name]) = none := by simpa using hfree
    have hext := extends_insert hnone (.dir (0o777 &&& (0o777 ^^^ t.umask)))
    have hslot' := slot_eq_ok.1 hslot
    have hparent := enters_of_parent hslot'.1
    refine ⟨hext, fun hwf => ?_, fun l node hl => ?_⟩
    · obtain ⟨dir', hdir', hisDir, -⟩ := hparent
      cases dir' with
      | dir mode => exact hwf.insert hdir' hnone _
      | file => cases hisDir
      | link => cases hisDir
    · rw [get?_insert] at hl
      split at hl
      · next heq =>
        cases hl
        subst heq
        refine .inr ⟨hnone, rfl, p, hp, Names.mono ?_ hext.keepsWays⟩
        exact ⟨loc, dir, name, slot_eq_ok.2 hslot', rfl⟩
      · exact .inl hl

theorem grows_ensureDir (hp : p ∈ qs) : Grows qs t (t.ensureDir p).tree := by
  unfold ensureDir
  split
  · next h => exact grows_makeDir h hp
  · exact .refl qs t

theorem grows_makeDirs (t : FileTree) (p : Path) (above : List Path) :
    Grows (p :: above) t (t.makeDirs p above).tree := by
  induction above generalizing t p with
  | nil =>
    rw [makeDirs]
    split
    · exact .refl _ t
    · split
      · next h => exact grows_makeDir h (List.mem_singleton_self p)
      · split <;> exact .refl _ t
  | cons q rest ih =>
    have hsub : ∀ q' ∈ q :: rest, q' ∈ p :: q :: rest := fun q' hq' => List.mem_cons_of_mem p hq'
    rw [makeDirs]
    split
    · exact .refl _ t
    · split
      · next h => exact grows_makeDir h (List.mem_cons_self ..)
      · split
        · exact .refl _ t
        · simp only
          split
          · exact (ih t q).trans (grows_ensureDir (List.mem_cons_self ..)) hsub
          · exact (ih t q).trans (.refl _ _) hsub

/-! ### The temporary file -/

variable {content : List UInt8} {tmp directory : Path}

/-- A temporary file that was made in the directory at `loc`. -/
structure Temporary (t : FileTree) (directory : Path) (content : List UInt8) (t' : FileTree)
    (tmp : Path) (loc : Location) (name : String) : Prop where
  leads : ∃ node, t.resolve directory true = .ok (loc, some node) ∧ node.isDir = true ∧
    node.searchable = true ∧ node.writable = true
  free : t.get? (loc ++ [name]) = none
  numbered : ∃ i, name = temporaryName i
  short : name.utf8ByteSize ≤ maxName
  tree : t' = t.insert (loc ++ [name]) (.file content 0o600)
  path : tmp = directory.join ⟨name⟩

theorem temporary_of_makeTemporary (h : t.makeTemporary directory content = .ok (t', tmp)) :
    ∃ loc name, Temporary t directory content t' tmp loc name := by
  unfold makeTemporary at h
  cases hstat : t.stat directory with
  | error e =>
    rw [hstat] at h
    cases h
  | ok x =>
    obtain ⟨loc, node⟩ := x
    rw [hstat] at h
    simp only [bind, Except.bind] at h
    split at h
    · cases h
    next hdir =>
    split at h
    · cases h
    next haccess =>
    split at h
    · cases h
    next hlong =>
    cases h
    rw [not_or] at haccess
    refine ⟨loc, _, ⟨node, stat_eq_ok.1 hstat, by simpa using hdir, ?_, ?_⟩, get?_freshName t loc,
      exists_freshName t loc _ _, Nat.le_of_not_lt hlong, rfl, rfl⟩
    · simpa using haccess.1
    · simpa using haccess.2

theorem filter_stepsOf (text : String) :
    (stepsOf text).filter (· ≠ ".") = (namesOf text).filter (· ≠ ".") := by
  unfold stepsOf
  split <;> simp

theorem enters_of_get? (h : t.get? loc = some node) (hisDir : node.isDir = true)
    (hsearch : node.searchable = true) : t.Enters loc := ⟨node, h, hisDir, hsearch⟩

namespace Temporary

variable (h : Temporary t directory content t' tmp loc name)

include h

theorem extends' : t.Extends t' := h.tree ▸ extends_insert h.free _

/-- The temporary file is no way to anywhere. -/
theorem keepsWays : t'.KeepsWays t := by
  refine ⟨by rw [h.tree]; rfl, fun l node hl hnode => ?_⟩
  rw [h.tree, get?_insert] at hl
  split at hl
  · cases hl
    cases hnode
  · exact hl

theorem wellFormed (hwf : t.WellFormed) : t'.WellFormed := by
  obtain ⟨node, hresolve, hisDir, -, -⟩ := h.leads
  have hnode := (resolve_eq_ok.1 hresolve).2.get?_eq
  cases node with
  | dir mode =>
    rw [h.tree]
    exact hwf.insert hnode h.free _
  | file => cases hisDir
  | link => cases hisDir

theorem get?_self : t'.get? (loc ++ [name]) = some (.file content 0o600) := by
  rw [h.tree]
  exact get?_insert_self t _ _

/-- The directory can also be followed without the dots in its path, or with others. -/
theorem walk {names : List String}
    (hnames : names.filter (· ≠ ".") = (namesOf directory.text).filter (· ≠ ".")) :
    ∃ node, Walk t' true maxLinks (t'.startOf directory.text) names (loc, some node) ∧
      node.isDir = true ∧ node.searchable = true ∧ node.writable = true := by
  obtain ⟨node, hresolve, hisDir, hsearch, hwrite⟩ := h.leads
  have hwalk := (resolve_eq_ok.1 hresolve).2
  have hdots := hwalk.dots (enters_of_get? hwalk.get?_eq hisDir hsearch)
    (hnames.trans (filter_stepsOf _).symm)
  refine ⟨node, ?_, hisDir, hsearch, hwrite⟩
  rw [startOf_eq_of_cwd h.extends'.cwd]
  exact hdots.mono h.extends'.keepsWays ⟨node, rfl, isFile_eq_false_of_isDir hisDir⟩

theorem slash_not_mem : '/' ∉ name.toList := by
  obtain ⟨i, rfl⟩ := h.numbered
  exact not_mem_temporaryName (by decide) (by decide) i

/-- The temporary file is named by its path. -/
theorem slot (hdir : directory.text ≠ "") : ∃ node, t'.slot tmp .busy = .ok (loc, node, name) ∧
    node.writable = true := by
  -- the name is a number behind a dot, so it is proper and holds no slash
  obtain ⟨i, hi⟩ := h.numbered
  obtain ⟨hne, hdot, hdots⟩ := temporaryName_ne i
  rw [← hi] at hne hdot hdots
  have hnames : namesOf tmp.text = namesOf directory.text ++ [name] := by
    rw [h.path]
    exact namesOf_join hdir h.slash_not_mem hne
  have hlast : lastOf tmp = .name name := by
    refine lastOf_of_getLast? ?_ hdot hdots
    rw [hnames, List.getLast?_concat]
  have hpath : Followable tmp := by
    obtain ⟨node, hresolve, -⟩ := h.leads
    have hnul := (resolve_eq_ok.1 hresolve).1.1
    obtain ⟨cs, htext, hcs⟩ := join_toList hdir h.slash_not_mem
    rw [← h.path] at htext
    have hcs' : '\x00' ∉ cs := by
      rcases hcs with hcs | hcs
      · exact hcs ▸ hnul
      · exact fun hmem => hnul (hcs ▸ List.mem_append_left _ hmem)
    have hname : '\x00' ∉ name.toList := by
      rw [hi]
      exact not_mem_temporaryName (by decide) (by decide) i
    refine ⟨by simp [htext, hcs', hname], fun hempty => ?_⟩
    rw [hempty] at htext
    simp at htext
  obtain ⟨node, hwalk, hisDir, hsearch, hwrite⟩ := h.walk rfl
  refine ⟨node, slot_eq_ok.2 ⟨parent_eq_ok.2 ⟨hpath, ?_, hisDir, hsearch⟩, hlast, h.short⟩, hwrite⟩
  rw [hnames, List.dropLast_concat, h.path, startOf_join _ hdir h.slash_not_mem]
  exact hwalk

theorem not_endsInSlash (hdir : directory.text ≠ "") : endsInSlash tmp.text = false := by
  obtain ⟨cs, htext, -⟩ := join_toList hdir h.slash_not_mem
  obtain ⟨i, hi⟩ := h.numbered
  have hne : name.toList ≠ [] := by simpa using hi ▸ (temporaryName_ne i).1
  have hlast : (cs ++ '/' :: name.toList).getLast? = name.toList.getLast? := by
    rw [List.getLast?_append_of_ne_nil _ (by simp), List.getLast?_cons]
    cases hgl : name.toList.getLast? with
    | none => exact absurd (List.getLast?_eq_none_iff.1 hgl) hne
    | some c => rfl
  rw [endsInSlash, h.path, htext, hlast, beq_eq_false_iff_ne]
  exact fun heq => h.slash_not_mem (List.mem_of_getLast? heq)

end Temporary

/-- A path is named in the directory of which it is put together. -/
theorem loc_eq_of_slot (h : Temporary t (directoryOf p) content t' tmp loc name)
    {loc' : Location} {name' : String} (hslot : t'.slot p e = .ok (loc', dir, name')) :
    loc' = loc ∧ dir.writable = true := by
  obtain ⟨hparent, hlast, -⟩ := slot_eq_ok.1 hslot
  obtain ⟨-, hwalk, -, -⟩ := parent_eq_ok.1 hparent
  obtain ⟨node, hwalk', -, -, hwrite⟩ := h.walk (directoryOf_eq hlast).2.symm
  rw [startOf_directoryOf _ hlast] at hwalk'
  have heq := hwalk.unique hwalk'
  cases heq
  exact ⟨rfl, hwrite⟩

end LspClient.FileTree
