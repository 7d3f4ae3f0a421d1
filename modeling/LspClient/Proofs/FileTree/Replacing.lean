import LspClient.Proofs.FileTree.Temporary

/-!
# Replacing a file

What `replace` does to the other entries of a tree. It makes the directories above the path, puts a
temporary file beside it, and renames this onto the path. The rename succeeds, or there is nothing
at the path (`persist_cases`).

`replace_spec` is the specification: where `replace` succeeds, all entries but the one the path
names are as they were, apart from the new directories; where it fails, all entries are. This holds
of paths that do not name a directory, and whose way does not lead through the entry that they name.
Neither can be left out: a directory is moved aside under the extension `bak`, in place of what was
there (`replace_directory`), and the mode of a file cannot be set by a path that leads through it.
-/

namespace LspClient.FileTree

variable {t t' t'' : FileTree} {p q : Path} {loc target l : Location} {name : String}
  {node dir : Node} {e : FileError} {content : List UInt8} {tmp directory : Path}

/-! ### The rename -/

theorem isEmptyDir_of_below (h : ∀ s, t.get? (loc ++ [s]) = none) : t.isEmptyDir loc = true := by
  rw [isEmptyDir, List.isEmpty_iff, children, List.filterMap_eq_nil_iff]
  intro x hx
  obtain ⟨l, node⟩ := x
  cases hs : l.getLast? with
  | none => simp [hs]
  | some s =>
    have hne : l.dropLast ≠ loc := by
      intro hloc
      have hnone := h s
      rw [← hloc, List.dropLast_append_getLast? s hs, get?, List.lookup_eq_none_iff] at hnone
      simpa using hnone _ hx
    simp [hs, hne]

theorem eq_of_concat_isPrefix {names : Location} {a b : String}
    (h : names ++ [a] <+: names ++ [b]) : names ++ [a] = names ++ [b] :=
  h.eq_of_length (by simp)

/-- The tree in which the temporary file has taken the place of the entry at `target`. -/
structure TookPlace (t' : FileTree) (content : List UInt8) (old target : Location)
    (t'' : FileTree) : Prop where
  cwd : t''.cwd = t'.cwd
  get? : ∀ l, t''.get? l = if l = target then some (.file content 0o600)
    else if l = old then none else t'.get? l

/-- A temporary file can be renamed to a name in its directory that is not that of a directory. -/
theorem rename_temporary (h : Temporary t (directoryOf p) content t' tmp loc name)
    (hwf : t'.WellFormed) {name' : String} (hslot : t'.slot p .busy = .ok (loc, dir, name'))
    (hslash : endsInSlash p.text = false)
    (hdir : ∀ mode, t'.get? (loc ++ [name']) ≠ some (.dir mode)) :
    ∃ t'', t'.rename tmp p = .ok t'' ∧
      TookPlace t' content (loc ++ [name]) (loc ++ [name']) t'' := by
  obtain ⟨node, htmp, hwrite⟩ := h.slot (directoryOf_ne_empty p)
  have hwrite' := (loc_eq_of_slot h hslot).2
  have hbelow (s : String) (hs : ∀ mode, t'.get? (loc ++ [s]) ≠ some (.dir mode))
      (names : List String) (hnames : names ≠ []) : t'.get? (loc ++ [s] ++ names) = none :=
    hwf.get?_below hs hnames
  have hempty : t'.isEmptyDir (loc ++ [name']) = true :=
    isEmptyDir_of_below fun s => hbelow name' hdir [s] (by simp)
  have hself : ∀ mode, t'.get? (loc ++ [name]) ≠ some (.dir mode) := by simp [h.get?_self]
  -- neither entry lies below the other, as both are in the same directory
  have hrename : t'.rename tmp p =
      if loc ++ [name] = loc ++ [name'] then .ok t'
      else .ok (t'.move (loc ++ [name]) (loc ++ [name'])) := by
    rw [rename, (slot_eq_ok.1 htmp).1, (slot_eq_ok.1 hslot).1, htmp, hslot]
    simp only [bind, Except.bind, h.get?_self, h.not_endsInSlash (directoryOf_ne_empty p), hslash]
    by_cases heq : loc ++ [name] = loc ++ [name']
    · simp [heq, Node.isDir, pure, Except.pure]
    · have hpre : (loc ++ [name]).isPrefixOf (loc ++ [name']) = false := by
        rw [Bool.eq_false_iff, ne_eq, List.isPrefixOf_iff_prefix]
        exact fun hpre => heq (eq_of_concat_isPrefix hpre)
      have hpre' : (loc ++ [name']).isPrefixOf (loc ++ [name]) = false := by
        rw [Bool.eq_false_iff, ne_eq, List.isPrefixOf_iff_prefix]
        exact fun hpre => heq (eq_of_concat_isPrefix hpre).symm
      cases hnew : t'.get? (loc ++ [name']) with
      | none => simp [heq, hpre, hpre', hwrite, hwrite', Node.isDir, pure, Except.pure]
      | some there =>
        cases there with
        | dir mode => exact absurd hnew (hdir mode)
        | file => simp [heq, hpre, hpre', hwrite, hwrite', hempty, Node.isDir, pure, Except.pure]
        | link => simp [heq, hpre, hpre', hwrite, hwrite', hempty, Node.isDir, pure, Except.pure]
  rw [hrename]
  -- the temporary file may have been at the path all along
  split
  · next heq =>
    refine ⟨t', rfl, rfl, fun l => ?_⟩
    rw [← heq]
    split
    · next hl => rw [hl, h.get?_self]
    · rfl
  · next hne =>
    refine ⟨_, rfl, rfl, fun l => ?_⟩
    rw [get?_move t' hne (hbelow name hself) (hbelow name' hdir), h.get?_self]

/-- A file can only be renamed to a name. -/
theorem slot_of_rename {source : Path} {mode : Nat} (h : t.rename source p = .ok t')
    (hsource : t.slot source .busy = .ok (loc, dir, name))
    (hfile : t.get? (loc ++ [name]) = some (.file content mode)) :
    endsInSlash p.text = false ∧ ∃ loc' dir' name', t.slot p .busy = .ok (loc', dir', name') := by
  rw [rename, (slot_eq_ok.1 hsource).1, hsource] at h
  cases hparent : t.parent p with
  | error e =>
    rw [hparent] at h
    cases h
  | ok y =>
    cases hslot : t.slot p .busy with
    | error e =>
      rw [hparent, hslot] at h
      cases h
    | ok x =>
      refine ⟨?_, x.1, x.2.1, x.2.2, rfl⟩
      by_contra hslash
      rw [hparent, hslot] at h
      simp only [bind, Except.bind, hfile, Bool.not_eq_false] at h hslash
      simp [hslash, Node.isDir] at h

/-- The rename succeeds, or fails where there is nothing that would have to be moved aside. -/
theorem persist_cases (h : Temporary t (directoryOf p) content t' tmp loc name)
    (hwf : t.WellFormed) (hdir : ∀ l mode, t.resolve p false ≠ .ok (l, some (.dir mode))) :
    (∃ dir name' t'', t'.slot p .busy = .ok (loc, dir, name') ∧ endsInSlash p.text = false ∧
      (∀ mode, t'.get? (loc ++ [name']) ≠ some (.dir mode)) ∧
      TookPlace t' content (loc ++ [name]) (loc ++ [name']) t'' ∧
      persist t' p tmp = ⟨t'', none⟩) ∨
    ∃ e, persist t' p tmp = ⟨t'.dropTemporary tmp, some e⟩ := by
  have hwf' := h.wellFormed hwf
  -- making the temporary file took no directory from the path
  have hdir' : ∀ l mode, t'.resolve p false ≠ .ok (l, some (.dir mode)) :=
    fun l mode hl => hdir l mode (resolve_mono hl rfl h.keepsWays)
  by_cases hp : endsInSlash p.text = false ∧
      ∃ loc' dir name', t'.slot p .busy = .ok (loc', dir, name')
  · obtain ⟨hslash, loc', dir, name', hslot⟩ := hp
    obtain ⟨rfl, -⟩ := loc_eq_of_slot h hslot
    have hnew : ∀ mode, t'.get? (loc' ++ [name']) ≠ some (.dir mode) := by
      intro mode hmode
      refine hdir' (loc' ++ [name']) mode ?_
      rw [resolve_of_slot hslot hslash (fun hlast => by cases hlast), hmode]
    obtain ⟨t'', hrename, htook⟩ := rename_temporary h hwf' hslot hslash hnew
    refine .inl ⟨dir, name', t'', hslot, hslash, hnew, htook, ?_⟩
    rw [persist, hrename]
  -- nothing is at the path, so the way around is not tried
  · have hexists : t'.exists? p = false := by
      rw [Bool.eq_false_iff]
      exact fun hexists => hp (slot_of_exists? hwf' hexists hdir' .busy)
    cases hrename : t'.rename tmp p with
    | ok t'' =>
      obtain ⟨node, htmp, -⟩ := h.slot (directoryOf_ne_empty p)
      exact absurd (slot_of_rename hrename htmp h.get?_self) hp
    | error e =>
      refine .inr ⟨e, ?_⟩
      simp [persist, hrename, hexists]

/-! ### The mode -/

theorem setMode_of_slot (hslot : t.slot p e = .ok (loc, dir, name))
    (hslash : endsInSlash p.text = false) (hnode : t.get? (loc ++ [name]) = some node)
    (hlink : ∀ s, node ≠ .link s) (mode : Nat) :
    t.setMode p mode = .ok (t.insert (loc ++ [name]) (node.withMode mode)) := by
  have hresolve : t.resolve p true = .ok (loc ++ [name], some node) := by
    rw [resolve_of_slot hslot hslash ?_, hnode]
    rw [hnode]
    exact fun _ s hs => hlink s (Option.some.inj hs)
  rw [setMode, stat_eq_ok.2 hresolve]
  rfl

/-! ### The specification -/

/-- The tree in which the directories above a path are made. -/
def withParents (t : FileTree) (p : Path) : FileTree := (t.makeDirAll (directoryOf p)).tree

/-- The path leads to no directory, but for one by a link at its end. -/
def NamesNoDirectory (t : FileTree) (p : Path) : Prop :=
  ∀ l mode, t.resolve p false ≠ .ok (l, some (.dir mode))

/-- The way to the directory of a path does not lead through a link that the path names. -/
def PassesBy (t : FileTree) (p : Path) : Prop :=
  ∀ loc dir name s, t.slot p .busy = .ok (loc, dir, name) →
    t.get? (loc ++ [name]) = some (.link s) →
    (t.erase (loc ++ [name])).parent p = .ok (loc, dir)

/-- The directories that were made for a path. -/
def IsNewParent (t : FileTree) (p : Path) (l : Location) (node : Node) : Prop :=
  t.get? l = none ∧ (t.withParents p).get? l = some node ∧ node.isDir = true ∧
    ∃ q ∈ directoryOf p :: (directoryOf p).ancestors, (t.withParents p).Names q l

/-- The content is where the path says, and all else is as it was. -/
def Replaced (t : FileTree) (p : Path) (content : List UInt8) (t' : FileTree) : Prop :=
  ∃ target mode, (t.withParents p).Names p target ∧
    t'.get? target = some (.file content mode) ∧
    ∀ l, l ≠ target → ∀ node, t'.get? l = some node ↔
      t.get? l = some node ∨ t.IsNewParent p l node

theorem grows_withParents (t : FileTree) (p : Path) :
    Grows (directoryOf p :: (directoryOf p).ancestors) t (t.withParents p) :=
  grows_makeDirs t (directoryOf p) (directoryOf p).ancestors

theorem get?_withParents_iff : (t.withParents p).get? l = some node ↔
    t.get? l = some node ∨ t.IsNewParent p l node := by
  have hgrows := grows_withParents t p
  constructor
  · intro hl
    rcases hgrows.new l node hl with hold | ⟨hnone, hisDir, hq⟩
    · exact .inl hold
    · exact .inr ⟨hnone, hl, hisDir, hq⟩
  · rintro (hold | hnew)
    · exact hgrows.keeps.get? l node hold
    · exact hnew.2.1

/-- What is neither a directory nor a link is on no way. -/
theorem keepsWays_erase (hdir : ∀ mode, t.get? loc ≠ some (.dir mode))
    (hlink : ∀ s, t.get? loc ≠ some (.link s)) : t.KeepsWays (t.erase loc) := by
  refine ⟨rfl, fun l node hl hnode => ?_⟩
  have hne : l ≠ loc := by
    rintro rfl
    cases node with
    | file => cases hnode
    | link s => exact hlink s hl
    | dir mode => exact hdir mode hl
  rwa [get?_erase_ne t hne]

section

variable {M : FileTree} {s : String}

theorem TookPlace.get?_of_ne (h : Temporary M directory content t' tmp loc name)
    (htook : TookPlace t' content (loc ++ [name]) target t'') (hl : l ≠ target) :
    t''.get? l = M.get? l := by
  rw [htook.get?, if_neg hl]
  split
  · next heq => rw [heq, h.free]
  · next hne => rw [h.tree, get?_insert_ne M _ hne]

/-- After the rename, what the path names is still found by it. -/
theorem slot_of_tookPlace (h : Temporary M (directoryOf p) content t' tmp loc name)
    (hdir : ∀ mode, t'.get? (loc ++ [s]) ≠ some (.dir mode)) (hpasses : M.PassesBy p)
    (hslot : t'.slot p .busy = .ok (loc, dir, s))
    (htook : TookPlace t' content (loc ++ [name]) (loc ++ [s]) t'') :
    M.slot p .busy = .ok (loc, dir, s) ∧ t''.slot p .busy = .ok (loc, dir, s) := by
  obtain ⟨hparent, hname⟩ := slot_eq_ok.1 hslot
  have hM := parent_mono hparent h.keepsWays
  have hslotM : M.slot p .busy = .ok (loc, dir, s) := slot_eq_ok.2 ⟨hM, hname⟩
  have herased : (M.erase (loc ++ [s])).parent p = .ok (loc, dir) := by
    by_cases hlink : ∃ target, M.get? (loc ++ [s]) = some (.link target)
    · obtain ⟨target, htarget⟩ := hlink
      exact hpasses loc dir s target hslotM htarget
    · refine parent_mono hM (keepsWays_erase (fun mode hmode => ?_) (not_exists.1 hlink))
      exact hdir mode (h.extends'.get? _ _ hmode)
  have hkeep : (M.erase (loc ++ [s])).KeepsWays t'' := by
    refine ⟨htook.cwd.trans h.extends'.cwd, fun l node hl _ => ?_⟩
    have hne : l ≠ loc ++ [s] := by
      rintro rfl
      rw [get?_erase_self] at hl
      cases hl
    rw [htook.get?_of_ne h hne]
    rwa [get?_erase_ne M hne] at hl
  exact ⟨hslotM, slot_eq_ok.2 ⟨parent_mono herased hkeep, hname⟩⟩

end

theorem replaced_of_get? {mode : Nat} (hnames : (t.withParents p).Names p target)
    (htarget : t'.get? target = some (.file content mode))
    (hother : ∀ l, l ≠ target → t'.get? l = (t.withParents p).get? l) :
    t.Replaced p content t' :=
  ⟨target, mode, hnames, htarget, fun l hl node => by
    rw [hother l hl]
    exact get?_withParents_iff⟩

theorem dropTemporary_eq (h : Temporary t directory content t' tmp loc name)
    (hdir : directory.text ≠ "") : t'.dropTemporary tmp = t'.erase (loc ++ [name]) := by
  obtain ⟨node, hslot, hwrite⟩ := h.slot hdir
  have hremove : t'.removeFile tmp = .ok (t'.erase (loc ++ [name])) := by
    rw [removeFile, slot_eq_ok.2 (slot_eq_ok.1 hslot)]
    simp [bind, Except.bind, h.get?_self, hwrite, Node.isDir, h.not_endsInSlash hdir, pure,
      Except.pure]
  rw [dropTemporary, hremove]

/-- A temporary file that is dropped leaves what was there, and nothing else. -/
theorem get?_dropTemporary (h : Temporary t directory content t' tmp loc name)
    (hdir : directory.text ≠ "") (l : Location) : (t'.dropTemporary tmp).get? l = t.get? l := by
  rw [dropTemporary_eq h hdir]
  by_cases hl : l = loc ++ [name]
  · rw [hl, get?_erase_self, h.free]
  · rw [get?_erase_ne t' hl, h.tree, get?_insert_ne t _ hl]

theorem extends_dropTemporary (h : Temporary t directory content t' tmp loc name)
    (hdir : directory.text ≠ "") : t.Extends (t'.dropTemporary tmp) := by
  refine ⟨?_, fun l node hl => by rw [get?_dropTemporary h hdir, hl]⟩
  rw [dropTemporary_eq h hdir]
  exact h.extends'.cwd

/-- What `replace` can do: fail before there is a temporary file, end as the rename does, or set the
mode as well. -/
theorem replace_cases (t : FileTree) (p : Path) (content : List UInt8) :
    (∃ e, t.replace p content = ⟨t.withParents p, some e⟩) ∨
    ∃ t' tmp, (t.withParents p).makeTemporary (directoryOf p) content = .ok (t', tmp) ∧
      (t.replace p content = persist t' p tmp ∨
        ∃ t'' mode, persist t' p tmp = ⟨t'', none⟩ ∧ t.replace p content =
          match t''.setMode p mode with
          | .ok t => ⟨t, none⟩
          | .error e => ⟨t'', some e⟩) := by
  have hmade : (t.makeDirAll (directoryOf p)).tree = t.withParents p := rfl
  simp only [replace, replaceWith, ReplaceOptions.default, if_true, hmade]
  split
  · next e he => exact .inl ⟨e, by rw [← hmade, ← he]⟩
  · split
    · exact .inl ⟨_, rfl⟩
    · next t' tmp htmp =>
      refine .inr ⟨t', tmp, htmp, ?_⟩
      split
      · next m hdone _ => exact .inr ⟨(persist t' p tmp).tree, m, by rw [← hdone], rfl⟩
      · exact .inl rfl

/-- A rename that has succeeded puts the content where the path says, and leaves a way to it. -/
theorem persist_spec {M : FileTree} (hM : M = t.withParents p)
    (h : Temporary M (directoryOf p) content t' tmp loc name) (hwf : t.WellFormed)
    (hnames : M.NamesNoDirectory p) (hpasses : M.PassesBy p) :
    (∃ t'', persist t' p tmp = ⟨t'', none⟩ ∧ t.Replaced p content t'' ∧
      ∀ mode, ∃ last, t''.setMode p mode = .ok last ∧ t.Replaced p content last) ∨
    ∃ t'' e, persist t' p tmp = ⟨t'', some e⟩ ∧ t.Extends t'' := by
  subst hM
  have hgrows := grows_withParents t p
  rcases persist_cases h (hgrows.wellFormed hwf) hnames with
    ⟨dir, s, t'', hslot, hslash, hdir, htook, hpersist⟩ | ⟨e, hpersist⟩
  · obtain ⟨hslotM, hslot''⟩ := slot_of_tookPlace h hdir hpasses hslot htook
    have hfile : t''.get? (loc ++ [s]) = some (.file content 0o600) := by
      rw [htook.get?, if_pos rfl]
    have hother : ∀ l, l ≠ loc ++ [s] → t''.get? l = (t.withParents p).get? l :=
      fun l hl => htook.get?_of_ne h hl
    have htarget : (t.withParents p).Names p (loc ++ [s]) := ⟨loc, dir, s, hslotM, rfl⟩
    refine .inl ⟨t'', hpersist, replaced_of_get? htarget hfile hother, fun mode =>
      ⟨_, setMode_of_slot hslot'' hslash hfile nofun mode, ?_⟩⟩
    refine replaced_of_get? htarget (get?_insert_self _ _ _) fun l hl => ?_
    rw [get?_insert_ne _ _ hl, hother l hl]
  · exact .inr ⟨_, e, hpersist,
      hgrows.keeps.trans (extends_dropTemporary h (directoryOf_ne_empty p))⟩

/-- What becomes of a tree in which a file is replaced. -/
theorem replace_spec (hwf : t.WellFormed) (hnames : (t.withParents p).NamesNoDirectory p)
    (hpasses : (t.withParents p).PassesBy p) (content : List UInt8) :
    match (t.replace p content).error with
    | none => t.Replaced p content (t.replace p content).tree
    | some _ => t.Extends (t.replace p content).tree := by
  have hcases := replace_cases t p content
  have hparents : t.Extends (t.withParents p) := (grows_withParents t p).keeps
  generalize t.replace p content = done at hcases ⊢
  rcases hcases with ⟨e, rfl⟩ | ⟨t', tmp, htmp, hlate⟩
  · exact hparents
  · obtain ⟨loc, name, h⟩ := temporary_of_makeTemporary htmp
    rcases persist_spec rfl h hwf hnames hpasses with
      ⟨t'', hpersist, hdone, hmode⟩ | ⟨t'', e, hpersist, hkept⟩
    · rw [hpersist] at hlate
      rcases hlate with rfl | ⟨_, mode, heq, rfl⟩
      · exact hdone
      · cases heq
        obtain ⟨last, hset, hdone'⟩ := hmode mode
        rw [hset]
        exact hdone'
    · rw [hpersist] at hlate
      rcases hlate with rfl | ⟨_, mode, heq, -⟩
      · exact hkept
      · cases heq

/-- A directory with a file in it, and a link to it. -/
def withLink : FileTree :=
  ⟨[([], .dir 0o755), (["d"], .dir 0o755), (["d", "f"], .file [111] 0o644), (["lnk"], .link "d")],
    [], 0o022⟩

/-- A link to a directory is replaced by a file, and the directory `new` is made on the way. -/
theorem replace_spec_withLink : (withLink.replace ⟨"new/../lnk"⟩ [120]).error = none ∧
    withLink.Replaced ⟨"new/../lnk"⟩ [120] (withLink.replace ⟨"new/../lnk"⟩ [120]).tree := by
  have hok : (withLink.replace ⟨"new/../lnk"⟩ [120]).error = none := by decide +kernel
  have hlink : (withLink.withParents ⟨"new/../lnk"⟩).resolve ⟨"new/../lnk"⟩ false =
      .ok (["lnk"], some (.link "d")) := by decide +kernel
  have hslot : (withLink.withParents ⟨"new/../lnk"⟩).slot ⟨"new/../lnk"⟩ .busy =
      .ok ([], .dir 0o755, "lnk") := by decide +kernel
  have hparent : ((withLink.withParents ⟨"new/../lnk"⟩).erase ["lnk"]).parent ⟨"new/../lnk"⟩ =
      .ok ([], .dir 0o755) := by decide +kernel
  have hspec := replace_spec (t := withLink) (wellFormed_of_entries (by decide) (by decide))
    (by rw [NamesNoDirectory, hlink]; simp)
    (fun loc dir name s hslot' _ => by
      rw [hslot] at hslot'
      cases hslot'
      exact hparent)
    [120]
  rw [hok] at hspec
  exact ⟨hok, hspec⟩

/-- A path that leads through the link it names: the link is replaced, and the mode then has no way
to the file. -/
example : (withLink.replace ⟨"lnk/../lnk"⟩ [120]).error = some .notDirectory ∧
    (withLink.replace ⟨"lnk/../lnk"⟩ [120]).tree.get? ["lnk"] = some (.file [120] 0o600) := by
  decide +kernel

/-! ### Paths of directories -/

/-- A directory, with a file beside it that was made as a backup of something else. -/
def withBackup : FileTree :=
  ⟨[([], .dir 0o755), (["d"], .dir 0o755), (["d.bak"], .file [111] 0o644)], [], 0o022⟩

/-- A directory is replaced without an error, and the file beside it is lost. -/
theorem replace_directory : (withBackup.replace ⟨"d"⟩ [120]).error = none ∧
    withBackup.get? ["d.bak"] = some (.file [111] 0o644) ∧
    (withBackup.replace ⟨"d"⟩ [120]).tree.get? ["d.bak"] = some (.dir 0o755) := by
  decide +kernel

end LspClient.FileTree
