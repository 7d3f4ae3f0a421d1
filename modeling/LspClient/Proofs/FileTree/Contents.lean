import LspClient.Proofs.FileTree.Replacing

/-!
# The contents of files

What is in the files of a tree, by their locations, and what reading and replacing do there. A path
may name a regular file by itself, with no link at its end (`fileAt?`). Then replacing it changes
the content of that file or, where it fails, no content at all (`replace_contents`), and the path
goes on naming the file whatever becomes of the contents of files (`Stands`).
-/

namespace LspClient.FileTree

variable {t t' t'' M : FileTree} {p tmp directory : Path} {loc l l' : Location} {node dir : Node}
  {name : String} {bytes content : List UInt8}

/-- The bytes of the file at a location. -/
def contentOf (t : FileTree) (l : Location) : Option (List UInt8) :=
  match t.get? l with
  | some (.file content _) => some content
  | _ => none

/-- The location of the regular file that a path names by itself. -/
def fileAt? (t : FileTree) (p : Path) : Option Location :=
  match t.slot p .busy with
  | .ok (loc, _, name) =>
    if endsInSlash p.text then none
    else if (t.contentOf (loc ++ [name])).isSome then some (loc ++ [name]) else none
  | .error _ => none

theorem contentOf_eq_some :
    t.contentOf l = some content ↔ ∃ mode, t.get? l = some (.file content mode) := by
  unfold contentOf
  split
  · next content' mode hl => simp [hl]
  · next hl => exact iff_of_false nofun fun ⟨mode, h⟩ => hl content mode h

theorem contentOf_congr (h : t'.get? l = t.get? l) : t'.contentOf l = t.contentOf l := by
  rw [contentOf, contentOf, h]

theorem fileAt?_eq_some : t.fileAt? p = some l ↔ endsInSlash p.text = false ∧
    t.contentOf l ≠ none ∧ t.Names p l := by
  unfold fileAt?
  constructor
  · intro h
    split at h
    · next loc dir name hslot =>
      split at h
      · cases h
      · next hslash =>
        obtain ⟨hsome, heq⟩ := Option.ite_none_right_eq_some.1 h
        cases heq
        exact ⟨by simpa using hslash, Option.isSome_iff_ne_none.1 hsome, loc, dir, name, hslot, rfl⟩
    · cases h
  · rintro ⟨hslash, hcontent, loc, dir, name, hslot, rfl⟩
    rw [hslot]
    simp [hslash, Option.isSome_iff_ne_none.2 hcontent]

/-! ### Trees that differ in contents -/

/-- The second tree has the directories and links of the first, and its files, maybe with other
contents. -/
structure Stands (t t' : FileTree) : Prop where
  wellFormed : t'.WellFormed
  keeps : t.KeepsWays t'
  files : ∀ l, t.contentOf l ≠ none → t'.contentOf l ≠ none

theorem Stands.refl (hwf : t.WellFormed) : t.Stands t :=
  ⟨hwf, (Extends.refl t).keepsWays, fun _ h => h⟩

theorem KeepsWays.trans (h : t.KeepsWays t') (h' : t'.KeepsWays t'') : t.KeepsWays t'' :=
  ⟨h'.cwd.trans h.cwd, fun l node hl hnode => h'.get? l node (h.get? l node hl hnode) hnode⟩

theorem Stands.trans (h : t.Stands t') (h' : t'.Stands t'') : t.Stands t'' :=
  ⟨h'.wellFormed, h.keeps.trans h'.keeps, fun l hl => h'.files l (h.files l hl)⟩

theorem Extends.stands (h : t.Extends t') (hwf : t'.WellFormed) : t.Stands t' := by
  refine ⟨hwf, h.keepsWays, fun l hl => ?_⟩
  obtain ⟨content, hcontent⟩ := Option.ne_none_iff_exists'.1 hl
  obtain ⟨mode, hnode⟩ := contentOf_eq_some.1 hcontent
  rw [contentOf_eq_some.2 ⟨mode, h.get? l _ hnode⟩]
  nofun

theorem Stands.fileAt? (h : t.Stands t') (hp : t.fileAt? p = some l) :
    t'.fileAt? p = some l := by
  obtain ⟨hslash, hcontent, hnames⟩ := fileAt?_eq_some.1 hp
  exact fileAt?_eq_some.2 ⟨hslash, h.files l hcontent, hnames.mono h.keeps⟩

/-- A tree that differs from a well-formed one in the content of a file. -/
theorem WellFormed.of_content (h : t.WellFormed) (hfile : t.contentOf l ≠ none)
    (hfile' : t'.contentOf l ≠ none) (hother : ∀ l', l' ≠ l → t'.get? l' = t.get? l') :
    t'.WellFormed := by
  have hdir {l' : Location} {mode : Nat} (hl' : t.get? l' = some (.dir mode)) : l' ≠ l := by
    rintro rfl
    exact hfile (by simp [contentOf, hl'])
  obtain ⟨mode, hroot⟩ := h.root
  refine ⟨⟨mode, by rw [hother _ (hdir hroot), hroot]⟩, fun loc name hne => ?_⟩
  have hold : t.get? (loc ++ [name]) ≠ none := by
    by_cases heq : loc ++ [name] = l
    · intro hnone
      rw [heq] at hnone
      exact hfile (by simp [contentOf, hnone])
    · rwa [← hother _ heq]
  obtain ⟨mode, hmode⟩ := h.above loc name hold
  exact ⟨mode, by rw [hother _ (hdir hmode), hmode]⟩

theorem stands_of_content (hwf : t.WellFormed) (hcwd : t'.cwd = t.cwd)
    (hfile : t.contentOf l ≠ none) (hfile' : t'.contentOf l ≠ none)
    (hother : ∀ l', l' ≠ l → t'.get? l' = t.get? l') : t.Stands t' := by
  refine ⟨hwf.of_content hfile hfile' hother, ⟨hcwd, fun l' node hl' hnode => ?_⟩,
    fun l' hl' => ?_⟩
  · have hne : l' ≠ l := by
      rintro rfl
      refine hfile ?_
      cases node with
      | file => cases hnode
      | dir mode => simp [contentOf, hl']
      | link target => simp [contentOf, hl']
    rw [hother l' hne, hl']
  · by_cases hne : l' = l
    · rwa [hne]
    · rwa [contentOf_congr (hother l' hne)]

/-! ### Reading -/

theorem resolve_of_fileAt? (hp : t.fileAt? p = some l) (last : Bool) :
    ∃ content mode, t.contentOf l = some content ∧
      t.resolve p last = .ok (l, some (.file content mode)) := by
  obtain ⟨hslash, hcontent, loc, dir, name, hslot, rfl⟩ := fileAt?_eq_some.1 hp
  obtain ⟨content, hcontent⟩ := Option.ne_none_iff_exists'.1 hcontent
  obtain ⟨mode, hnode⟩ := contentOf_eq_some.1 hcontent
  refine ⟨content, mode, hcontent, ?_⟩
  rw [resolve_of_slot hslot hslash fun _ s => by simp [hnode], hnode]

theorem decode_of_readText (hp : t.fileAt? p = some l) {s : String} (h : t.readText p = .ok s) :
    ∃ content, t.contentOf l = some content ∧ Utf8.decode? content = some s := by
  obtain ⟨content, mode, hcontent, hresolve⟩ := resolve_of_fileAt? hp true
  refine ⟨content, hcontent, ?_⟩
  have hread : t.readFile p = .ok content ∨ ∃ e, t.readFile p = .error e := by
    rw [readFile, stat_eq_ok.2 hresolve]
    simp only [bind, Except.bind]
    split
    · exact .inl rfl
    · exact .inr ⟨_, rfl⟩
  rcases hread with hread | ⟨e, hread⟩
  · rw [readText, hread] at h
    simp only [bind, Except.bind] at h
    split at h
    · next s' hs' =>
      cases h
      exact hs'
    · cases h
  · rw [readText, hread] at h
    cases h

/-! ### Replacing -/

/-- The directories that are made for a path have no content. -/
theorem contentOf_withParents (t : FileTree) (p : Path) (l : Location) :
    (t.withParents p).contentOf l = t.contentOf l := by
  have hgrows := grows_withParents t p
  refine Option.ext fun content => ?_
  rw [contentOf_eq_some, contentOf_eq_some]
  constructor
  · rintro ⟨mode, hl⟩
    rcases hgrows.new l _ hl with hold | ⟨-, hisDir, -⟩
    · exact ⟨mode, hold⟩
    · cases hisDir
  · rintro ⟨mode, hl⟩
    exact ⟨mode, hgrows.keeps.get? l _ hl⟩

/-- What has become of the contents of a tree. -/
structure Rewritten (t : FileTree) (l : Location) (content : List UInt8) (t' : FileTree) :
    Prop where
  stands : t.Stands t'
  content : t'.contentOf l = some content
  others : ∀ l', l' ≠ l → t'.contentOf l' = t.contentOf l'

/-- Nothing has become of the contents of a tree. -/
structure SameContents (t t' : FileTree) : Prop where
  stands : t.Stands t'
  contents : ∀ l, t'.contentOf l = t.contentOf l

theorem SameContents.refl (hwf : t.WellFormed) : t.SameContents t := ⟨.refl hwf, fun _ => rfl⟩

theorem stands_withParents (hwf : t.WellFormed) (p : Path) : t.Stands (t.withParents p) :=
  (grows_withParents t p).keeps.stands ((grows_withParents t p).wellFormed hwf)

/-- The tree with its parents made, but for the content of a file. -/
theorem rewritten_of_get? {mode : Nat} (hwf : t.WellFormed) (hl : t.contentOf l ≠ none)
    (hcwd : t'.cwd = (t.withParents p).cwd) (htarget : t'.get? l = some (.file content mode))
    (hother : ∀ l', l' ≠ l → t'.get? l' = (t.withParents p).get? l') :
    t.Rewritten l content t' := by
  have hparents := stands_withParents hwf p
  have hcontent : t'.contentOf l = some content := contentOf_eq_some.2 ⟨mode, htarget⟩
  refine ⟨hparents.trans (stands_of_content hparents.wellFormed hcwd (hparents.files l hl)
    (by rw [hcontent]; nofun) hother), hcontent, fun l' hl' => ?_⟩
  rw [contentOf_congr (hother l' hl'), contentOf_withParents]

theorem sameContents_of_get? (hwf : t.WellFormed) (hcwd : t'.cwd = (t.withParents p).cwd)
    (h : ∀ l, t'.get? l = (t.withParents p).get? l) : t.SameContents t' := by
  have hparents := stands_withParents hwf p
  have hext : (t.withParents p).Extends t' := ⟨hcwd, fun l node hl => (h l).trans hl⟩
  have hwf' : t'.WellFormed := by
    obtain ⟨mode, hroot⟩ := hparents.wellFormed.root
    refine ⟨⟨mode, (h []).trans hroot⟩, fun loc name hne => ?_⟩
    obtain ⟨mode, hmode⟩ := hparents.wellFormed.above loc name fun hnone =>
      hne ((h _).trans hnone)
    exact ⟨mode, (h loc).trans hmode⟩
  exact ⟨hparents.trans (hext.stands hwf'), fun l => by
    rw [contentOf_congr (h l), contentOf_withParents]⟩

/-- A path that names a file can be replaced, or all contents stay. -/
theorem persist_contents (hwf : t.WellFormed) (hp : t.fileAt? p = some l)
    (h : Temporary (t.withParents p) (directoryOf p) content t' tmp loc name) :
    (∃ t'', persist t' p tmp = ⟨t'', none⟩ ∧ t.Rewritten l content t'' ∧
      ∀ mode, ∃ last, t''.setMode p mode = .ok last ∧ t.Rewritten l content last) ∨
    ∃ t'' e, persist t' p tmp = ⟨t'', some e⟩ ∧ t.SameContents t'' := by
  have hparents := stands_withParents hwf p
  have hp' := hparents.fileAt? hp
  obtain ⟨-, -, locM, dirM, nameM, hslotM, rfl⟩ := fileAt?_eq_some.1 hp'
  obtain ⟨old, oldMode, -, hresolve⟩ := resolve_of_fileAt? hp' false
  have hnames : (t.withParents p).NamesNoDirectory p := by
    intro l mode hl
    cases hresolve.symm.trans hl
  have hpasses : (t.withParents p).PassesBy p := by
    intro loc' dir' name' target hslot' hlink
    cases hslotM.symm.trans hslot'
    have hfile := (resolve_eq_ok.1 hresolve).2.get?_eq
    cases hfile.symm.trans hlink
  -- the file is where the path leads, or all is as it was but for the temporary file
  rcases persist_cases h hparents.wellFormed hnames with
    ⟨dir, s, t'', hslot, hslash, hdir, htook, hpersist⟩ | ⟨e, hpersist⟩
  · obtain ⟨hslot', hslot''⟩ := slot_of_tookPlace h hdir hpasses hslot htook
    obtain ⟨rfl, rfl, rfl⟩ : locM = loc ∧ dirM = dir ∧ nameM = s := by
      simpa using hslotM.symm.trans hslot'
    have hcontent := (fileAt?_eq_some.1 hp).2.1
    have hcwd : t''.cwd = (t.withParents p).cwd := htook.cwd.trans h.extends'.cwd
    have hfile : t''.get? (locM ++ [nameM]) = some (.file content 0o600) := by
      rw [htook.get?, if_pos rfl]
    have hother : ∀ l, l ≠ locM ++ [nameM] → t''.get? l = (t.withParents p).get? l :=
      fun l hl => htook.get?_of_ne h hl
    refine .inl ⟨t'', hpersist, rewritten_of_get? hwf hcontent hcwd hfile hother, fun mode =>
      ⟨_, setMode_of_slot hslot'' hslash hfile nofun mode, ?_⟩⟩
    refine rewritten_of_get? hwf hcontent hcwd (get?_insert_self _ _ _) fun l hl => ?_
    rw [get?_insert_ne _ _ hl, hother l hl]
  · have hdir := directoryOf_ne_empty p
    exact .inr ⟨_, e, hpersist, sameContents_of_get? hwf (extends_dropTemporary h hdir).cwd
      (get?_dropTemporary h hdir)⟩

theorem replace_contents (hwf : t.WellFormed) (hp : t.fileAt? p = some l)
    (content : List UInt8) :
    ((t.replace p content).error = none ∧ t.Rewritten l content (t.replace p content).tree) ∨
      ((t.replace p content).error ≠ none ∧ t.SameContents (t.replace p content).tree) := by
  have hcases := replace_cases t p content
  generalize t.replace p content = done at hcases ⊢
  rcases hcases with ⟨e, rfl⟩ | ⟨t', tmp, htmp, hlate⟩
  · have hmade : t.SameContents (t.withParents p) :=
      sameContents_of_get? hwf (p := p) rfl fun _ => rfl
    dsimp only
    exact .inr ⟨nofun, hmade⟩
  · obtain ⟨loc, name, h⟩ := temporary_of_makeTemporary htmp
    rcases persist_contents hwf hp h with
      ⟨t'', hpersist, hdone, hmode⟩ | ⟨t'', e, hpersist, hkept⟩
    · rw [hpersist] at hlate
      rcases hlate with rfl | ⟨_, mode, heq, rfl⟩
      · exact .inl ⟨rfl, hdone⟩
      · cases heq
        obtain ⟨last, hset, hdone'⟩ := hmode mode
        rw [hset]
        exact .inl ⟨rfl, hdone'⟩
    · rw [hpersist] at hlate
      rcases hlate with rfl | ⟨_, mode, heq, -⟩
      · exact .inr ⟨by simp, hkept⟩
      · cases heq

end LspClient.FileTree
