import LspClient.Proofs.FileTree.Replacing

/-!
# Rewriting a file that can be read

A path that leads to a file names no directory, and the way to its directory does not lead through
the link that it may name (`passesBy_of_file`): a link on the way leads to a directory, and the path
then would, too. The directories above it are there (`makeDirAll_of_file`). So `replace` rewrites
the entry that the path names, and nothing else, or leaves everything as it was (`replace_of_file`).
-/

namespace LspClient.FileTree

variable {t t' : FileTree} {last : Bool} {n m k : Nat} {loc l : Location} {name : String}
  {names rest : List String} {r r' : Reached} {p q : Path} {node dir : Node} {mode : Nat}
  {content : List UInt8}

/-! ### Walks that go on to a directory -/

theorem Walk.more (h : Walk t last n loc names r) (hle : n ≤ m) : Walk t last m loc names r := by
  induction h generalizing m with
  | done => exact .done
  | here hloc _ ih => exact .here hloc (ih hle)
  | up hloc _ ih => exact .up hloc (ih hle)
  | free hloc hname hnone => exact .free hloc hname hnone
  | stop hloc hname hlink hlast => exact .stop hloc hname hlink hlast
  | link hloc hname hlink hgo _ ih =>
    obtain ⟨m, rfl⟩ := Nat.exists_eq_add_of_le' (Nat.le_trans (Nat.le_add_left 1 _) hle)
    exact .link hloc hname hlink hgo (ih (Nat.le_of_succ_le_succ hle))
  | onward hloc hname hsome hnot _ ih => exact .onward hloc hname hsome hnot (ih hle)

/-- However many links may be met, a walk leads to one place. -/
theorem Walk.leads_once (h : Walk t last n loc names r) (h' : Walk t last k loc names r') :
    r = r' :=
  (h.more (Nat.le_max_left n k)).unique (h'.more (Nat.le_max_right n k))

/-- Where a walk does not stop at a link, it makes no difference that it might have. -/
theorem Walk.followed (h : Walk t false n loc names r) (hr : ∀ s, r.2 ≠ some (.link s)) :
    Walk t true n loc names r := by
  induction h with
  | done => exact .done
  | here hloc _ ih => exact .here hloc (ih hr)
  | up hloc _ ih => exact .up hloc (ih hr)
  | free hloc hname hnone => exact .free hloc hname hnone
  | @stop _ _ _ target => exact absurd rfl (hr target)
  | link hloc hname hlink _ _ ih => exact .link hloc hname hlink (.inr rfl) (ih hr)
  | onward hloc hname hsome hnot _ ih => exact .onward hloc hname hsome hnot (ih hr)

def Reached.IsDir (r : Reached) : Prop := ∃ dir, r.2 = some dir ∧ dir.isDir = true

theorem Enters.isDir (h : t.Enters loc) : Reached.IsDir (loc, t.get? loc) := by
  obtain ⟨dir, hdir, hisDir, -⟩ := h
  exact ⟨dir, hdir, hisDir⟩

/-- What a walk goes on from is a directory. -/
theorem Walk.through (h : Walk t true n loc (names ++ rest) r) (hr : r.IsDir) :
    ∃ r', Walk t true n loc names r' ∧ r'.IsDir := by
  induction rest using List.reverseRecOn generalizing r with
  | nil =>
    rw [List.append_nil] at h
    exact ⟨r, h, hr⟩
  | append_singleton rest name ih =>
    rw [← List.append_assoc] at h
    obtain ⟨l, hl, henters, -⟩ := h.cut
    exact ih hl henters.isDir

/-- A walk to a directory does not meet a link that leads to none. -/
theorem Walk.avoid {s : String} (hlink : t.get? (loc ++ [name]) = some (.link s))
    (hno : ∀ k r, Walk t true k (linkBase loc s) (stepsOf s) r → ¬ r.IsDir)
    (h : Walk t true n l names r) (hr : r.IsDir) :
    Walk (t.erase (loc ++ [name])) true n l names r := by
  have henters {l : Location} (hl : t.Enters l) : (t.erase (loc ++ [name])).Enters l := by
    obtain ⟨dir, hdir, hisDir, hsearch⟩ := hl
    refine ⟨dir, ?_, hisDir, hsearch⟩
    rw [get?_erase_ne t, hdir]
    rintro rfl
    rw [hlink] at hdir
    cases hdir
    cases hisDir
  -- by induction on the walk: it cannot pass the link, which leads to no directory
  induction h with
  | @done n l =>
    obtain ⟨dir, hdir, hisDir⟩ := hr
    have hget : (t.erase (loc ++ [name])).get? l = t.get? l := by
      refine get?_erase_ne t ?_
      rintro rfl
      cases hlink.symm.trans hdir
      cases hisDir
    rw [← hget]
    exact .done
  | here hl _ ih => exact .here (henters hl) (ih hr)
  | up hl _ ih => exact .up (henters hl) (ih hr)
  | free =>
    obtain ⟨_, hnone, -⟩ := hr
    cases hnone
  | stop _ _ _ hstop => cases hstop
  | @link n l name' s' rest r hl hname hlink' hgo h ih =>
    by_cases heq : l ++ [name'] = loc ++ [name]
    · -- the way goes on from where the link leads
      obtain ⟨rfl, rfl⟩ := List.append_singleton_inj.1 heq
      cases hlink.symm.trans hlink'
      obtain ⟨r', hr', hdir⟩ := h.through hr
      exact absurd hdir (hno n r' hr')
    · refine .link (henters hl) hname ?_ hgo (ih hr)
      rw [get?_erase_ne t heq, hlink']
  | @onward n l name' rest r node hl hname hsome hnot h ih =>
    refine .onward (henters hl) hname ?_ hnot (ih hr)
    rw [get?_erase_ne t, hsome]
    intro heq
    rw [heq] at hsome
    exact hnot s (Option.some.inj (hsome.symm.trans hlink))

/-! ### Paths that lead to files -/

theorem namesNoDirectory_of_file (h : t.resolve p true = .ok (l, some (.file content mode))) :
    t.NamesNoDirectory p := by
  intro l' mode' hdir
  have hwalk := (resolve_eq_ok.1 hdir).2.followed nofun
  cases hwalk.unique (resolve_eq_ok.1 h).2

theorem slot_of_file (hwf : t.WellFormed)
    (h : t.resolve p true = .ok (l, some (.file content mode))) :
    endsInSlash p.text = false ∧ ∃ loc dir name, t.slot p .busy = .ok (loc, dir, name) :=
  slot_of_exists? hwf (exists?_iff.2 ⟨l, _, h⟩) (namesNoDirectory_of_file h) .busy

/-- What a path to a file names is there, and no directory. -/
theorem entry_of_file (h : t.resolve p true = .ok (l, some (.file content mode))) {e : FileError}
    (hslot : t.slot p e = .ok (loc, dir, name)) (hslash : endsInSlash p.text = false) :
    ∃ there, t.get? (loc ++ [name]) = some there ∧ there.isDir = false := by
  cases hthere : t.get? (loc ++ [name]) with
  | none =>
    have hresolve : t.resolve p true = .ok (loc ++ [name], t.get? (loc ++ [name])) :=
      resolve_of_slot hslot hslash fun _ s => by simp [hthere]
    rw [hthere, h] at hresolve
    cases hresolve
  | some there =>
    refine ⟨there, rfl, ?_⟩
    cases there with
    | dir mode' =>
      have hresolve : t.resolve p false = .ok (loc ++ [name], t.get? (loc ++ [name])) :=
        resolve_of_slot hslot hslash nofun
      rw [hthere] at hresolve
      exact absurd hresolve (namesNoDirectory_of_file h _ mode')
    | file => rfl
    | link => rfl

theorem passesBy_of_file (hwf : t.WellFormed)
    (h : t.resolve p true = .ok (l, some (.file content mode))) : t.PassesBy p := by
  intro loc dir name s hslot hlink
  obtain ⟨hparent, hlast, -⟩ := slot_eq_ok.1 hslot
  obtain ⟨hpath, hway, hisDir, hsearch⟩ := parent_eq_ok.1 hparent
  obtain ⟨-, hdot, hdots⟩ := lastOf_eq_name hlast
  -- the link is what the path names, so it leads where the path does
  have hend : ∃ k, Walk t true k (linkBase loc s) (stepsOf s) (l, some (.file content mode)) := by
    have hwalk := (resolve_eq_ok.1 h).2
    rw [stepsOf_of_not_endsInSlash (slot_of_file hwf h).1, namesOf_eq_append hlast] at hwalk
    obtain ⟨l', hl', -, k, hname⟩ := hwalk.cut
    obtain rfl : loc = l' := congrArg Prod.fst (hway.unique hl')
    cases hname with
    | here => exact absurd rfl hdot
    | up => exact absurd rfl hdots
    | @link n _ _ s' _ _ _ _ hlink' _ hgo =>
      cases hlink.symm.trans hlink'
      rw [List.append_nil] at hgo
      exact ⟨n, hgo⟩
    | onward _ _ hsome hnot =>
      cases hlink.symm.trans hsome
      exact absurd rfl (hnot s)
  obtain ⟨k, hend⟩ := hend
  have hno (k' : Nat) (r : Reached) (hr : Walk t true k' (linkBase loc s) (stepsOf s) r) :
      ¬ r.IsDir := by
    rintro ⟨dir', hdir', hisDir'⟩
    rw [← hend.leads_once hr] at hdir'
    cases hdir'
    cases hisDir'
  exact parent_eq_ok.2 ⟨hpath, hway.avoid hlink hno ⟨dir, rfl, hisDir⟩, hisDir, hsearch⟩

/-! ### The directories above a file -/

theorem mem_directoryOf {c : Char} (hc : c ∈ (directoryOf p).text.toList) :
    c ∈ p.text.toList ∨ c = '/' ∨ c = '.' := by
  unfold directoryOf at hc
  split at hc
  · next q hq =>
    split at hc
    · exact .inr (.inr (by simpa using hc))
    · obtain ⟨⟨kept, x⟩, -, rfl⟩ := Option.map_eq_some_iff.1 hq
      simp only [Path.upTo] at hc
      split at hc
      · rw [String.toList_ofList] at hc
        exact .inl (List.mem_of_mem_take hc)
      · split at hc
        · exact .inr (.inl (by simpa using hc))
        · simp at hc
  · exact .inr (.inr (by simpa using hc))

/-- The directory of a path leads where the operations go that make an entry. -/
theorem resolve_directoryOf (h : t.slot p .busy = .ok (loc, dir, name)) :
    t.resolve (directoryOf p) true = .ok (loc, some dir) := by
  obtain ⟨hparent, hlast, -⟩ := slot_eq_ok.1 h
  obtain ⟨hpath, hwalk, -⟩ := parent_eq_ok.1 hparent
  have hnul : '\x00' ∉ (directoryOf p).text.toList := by
    intro hmem
    rcases mem_directoryOf hmem with hmem | hmem | hmem
    · exact hpath.1 hmem
    · cases hmem
    · cases hmem
  refine resolve_eq_ok.2 ⟨⟨hnul, directoryOf_ne_empty p⟩, ?_⟩
  rw [startOf_directoryOf t hlast]
  refine hwalk.dots (enters_of_parent hparent) ?_
  rw [filter_stepsOf, (directoryOf_eq hlast).2]

/-- By its last name a path to a directory finds an entry. -/
theorem Walk.isSome_entry (h : Walk t true n loc [name] r) (hdot : name ≠ ".") (hdots : name ≠ "..")
    (hr : r.IsDir) : (t.get? (loc ++ [name])).isSome = true := by
  cases h with
  | here => exact absurd rfl hdot
  | up => exact absurd rfl hdots
  | free =>
    obtain ⟨_, hnone, -⟩ := hr
    cases hnone
  | stop _ _ _ hstop => cases hstop
  | link _ _ hlink => simp [hlink]
  | onward _ _ hsome => simp [hsome]

/-- Above a directory that is there nothing is missing. -/
theorem parent_of_dir (hpath : Followable q)
    (h : Walk t true maxLinks (t.startOf q.text) (namesOf q.text) r) (hr : r.IsDir) :
    (∃ loc dir, t.parent q = .ok (loc, dir)) ∨ t.parent q = .error .permissionDenied := by
  have hbefore : ∃ r', Walk t true maxLinks (t.startOf q.text) (namesOf q.text).dropLast r' ∧
      r'.IsDir := by
    rcases List.eq_nil_or_concat (namesOf q.text) with hnil | ⟨init, x, hinit⟩
    · rw [hnil] at h ⊢
      exact ⟨r, h, hr⟩
    · rw [hinit, List.concat_eq_append] at h ⊢
      rw [List.dropLast_concat]
      exact h.through hr
  obtain ⟨⟨loc, _⟩, hway, dir, rfl, hisDir⟩ := hbefore
  have hfound := followLinks_eq_ok.2 hway
  rw [parent, if_neg (by simpa using hpath.1), if_neg hpath.2, hfound]
  cases hsearch : dir.searchable with
  | true => exact .inl ⟨loc, dir, by simp [hisDir, hsearch]⟩
  | false => exact .inr (by simp [hisDir, hsearch])

/-- A directory that is there is not made, and not for want of those above it. -/
theorem makeDir_of_dir (h : t.resolve q true = .ok (l, some dir)) (hdir : dir.isDir = true) :
    ∃ e, t.makeDir q = .error e ∧ e ≠ .notFound := by
  obtain ⟨hpath, hwalk⟩ := resolve_eq_ok.1 h
  have hnames : ∃ r, Walk t true maxLinks (t.startOf q.text) (namesOf q.text) r ∧ r.IsDir :=
    hwalk.through ⟨dir, rfl, hdir⟩
  obtain ⟨r, hr, hrdir⟩ := hnames
  rcases parent_of_dir hpath hr hrdir with ⟨loc, dir', hparent⟩ | hparent
  · unfold makeDir slot
    rw [hparent]
    simp only [bind, Except.bind]
    cases hlast : lastOf q with
    | root => exact ⟨_, rfl, by simp⟩
    | dots => exact ⟨_, rfl, by simp⟩
    | name s =>
      have hsome : (t.get? (loc ++ [s])).isSome = true := by
        obtain ⟨-, hway, -⟩ := parent_eq_ok.1 hparent
        obtain ⟨-, hdot, hdots⟩ := lastOf_eq_name hlast
        rw [namesOf_eq_append hlast] at hr
        obtain ⟨l', hl', -, k, hname⟩ := hr.cut
        obtain rfl : loc = l' := congrArg Prod.fst (hway.unique hl')
        exact hname.isSome_entry hdot hdots hrdir
      by_cases hlong : s.utf8ByteSize > maxName
      · exact ⟨.nameTooLong, by simp [hlong], by simp⟩
      · refine ⟨.alreadyExists, ?_, by simp⟩
        simp [hlong, hsome, pure, Except.pure]
  · refine ⟨.permissionDenied, ?_, by simp⟩
    simp [makeDir, slot, hparent, bind, Except.bind]

theorem makeDirs_of_dir (h : t.resolve q true = .ok (l, some dir)) (hdir : dir.isDir = true)
    (above : List Path) : t.makeDirs q above = ⟨t, none⟩ := by
  obtain ⟨e, he, hne⟩ := makeDir_of_dir h hdir
  have hisDir : t.isDir q = true := by
    rw [isDir, node?, stat_eq_ok.2 h]
    exact hdir
  cases above <;> rw [makeDirs, he] <;> simp [hne, hisDir]

theorem makeDirAll_of_file (hwf : t.WellFormed)
    (h : t.resolve p true = .ok (l, some (.file content mode))) :
    t.makeDirAll (directoryOf p) = ⟨t, none⟩ := by
  obtain ⟨-, loc, dir, name, hslot⟩ := slot_of_file hwf h
  obtain ⟨-, -, hisDir, -⟩ := parent_eq_ok.1 (slot_eq_ok.1 hslot).1
  exact makeDirs_of_dir (resolve_directoryOf hslot) hisDir _

/-! ### Rewriting -/

/-- The trees cannot be told apart by what is in them. -/
structure Alike (t t' : FileTree) : Prop where
  cwd : t'.cwd = t.cwd
  get? : ∀ l, t'.get? l = t.get? l

theorem Alike.refl (t : FileTree) : t.Alike t := ⟨rfl, fun _ => rfl⟩

/-- What a path names, which was no directory, is a file now; all else is as it was. The file has
the permissions of the one that the path led to. -/
structure Rewrites (t : FileTree) (p : Path) (content : List UInt8) (t' : FileTree) : Prop where
  cwd : t'.cwd = t.cwd
  entry : ∃ target there node, t.Names p target ∧ t.get? target = some there ∧
    there.isDir = false ∧ t.node? p = some node ∧
    t'.get? target = some (.file content (node.mode &&& 0o7777)) ∧
    ∀ l, l ≠ target → t'.get? l = t.get? l

theorem Rewrites.wellFormed (h : t.Rewrites p content t') (hwf : t.WellFormed) :
    t'.WellFormed := by
  obtain ⟨target, there, node, ⟨loc, dir, name, -, rfl⟩, hthere, hnot, -, hfile, hother⟩ := h.entry
  have hkept {l : Location} {mode : Nat} (hl : t.get? l = some (.dir mode)) :
      t'.get? l = some (.dir mode) := by
    rw [hother, hl]
    rintro rfl
    cases hthere.symm.trans hl
    cases hnot
  obtain ⟨mode, hroot⟩ := hwf.root
  refine ⟨⟨mode, hkept hroot⟩, fun loc' name' hne => ?_⟩
  have hold : t.get? (loc' ++ [name']) ≠ none := by
    by_cases heq : loc' ++ [name'] = loc ++ [name]
    · rw [heq, hthere]
      nofun
    · rwa [← hother _ heq]
  obtain ⟨mode, hmode⟩ := hwf.above loc' name' hold
  exact ⟨mode, hkept hmode⟩

/-- To replace a file whose directories are there is to rename a temporary file onto it, and to set
its mode. -/
theorem replace_eq_of_parents (hmade : t.makeDirAll (directoryOf p) = ⟨t, none⟩)
    (hnode : t.node? p = some node) : t.replace p content =
      match t.makeTemporary (directoryOf p) content with
      | .error e => ⟨t, some e⟩
      | .ok (t', tmp) =>
        match persist t' p tmp with
        | ⟨done, none⟩ =>
          match done.setMode p (node.mode &&& 0o7777) with
          | .ok last => ⟨last, none⟩
          | .error e => ⟨done, some e⟩
        | ⟨done, some e⟩ => ⟨done, some e⟩ := by
  simp only [replace, replaceWith, ReplaceOptions.default, if_true, hmade, modeFor, hnode,
    Option.map_some]
  cases t.makeTemporary (directoryOf p) content with
  | error e => rfl
  | ok made =>
    obtain ⟨t', tmp⟩ := made
    dsimp only
    generalize persist t' p tmp = done
    obtain ⟨done, error⟩ := done
    cases error <;> rfl

/-- Where a file can be read, replacing it rewrites what its path names, or changes nothing. -/
theorem replace_of_file (hwf : t.WellFormed)
    (h : t.resolve p true = .ok (l, some (.file content mode))) (new : List UInt8) :
    (∃ t', t.replace p new = ⟨t', none⟩ ∧ t.Rewrites p new t') ∨
      ∃ t' e, t.replace p new = ⟨t', some e⟩ ∧ t.Alike t' := by
  have hmade := makeDirAll_of_file hwf h
  have hnode : t.node? p = some (.file content mode) := by
    rw [node?, stat_eq_ok.2 h]
    rfl
  rw [replace_eq_of_parents hmade hnode]
  split
  · next e _ => exact .inr ⟨t, e, rfl, .refl t⟩
  next t' tmp htmp =>
  obtain ⟨loc, name, htemporary⟩ := temporary_of_makeTemporary htmp
  -- either the rename put the new file in the place of the old one, or the old one stays
  rcases persist_cases htemporary hwf (namesNoDirectory_of_file h) with
    ⟨dir, s, t'', hslot, hslash, hdir, htook, hpersist⟩ | ⟨e, hpersist⟩
  · rw [hpersist]
    obtain ⟨hslot', hslot''⟩ := slot_of_tookPlace htemporary hdir (passesBy_of_file hwf h) hslot
      htook
    have hfile : t''.get? (loc ++ [s]) = some (.file new 0o600) := by
      rw [htook.get?, if_pos rfl]
    simp only [setMode_of_slot hslot'' hslash hfile (by simp)]
    refine .inl ⟨_, rfl, htook.cwd.trans htemporary.extends'.cwd, ?_⟩
    obtain ⟨there, hthere, hnot⟩ := entry_of_file h hslot' hslash
    refine ⟨_, there, _, ⟨loc, dir, s, hslot', rfl⟩, hthere, hnot, hnode, get?_insert_self _ _ _,
      fun l hl => ?_⟩
    rw [get?_insert_ne _ _ hl, htook.get?_of_ne htemporary hl]
  · rw [hpersist]
    have hdir := directoryOf_ne_empty p
    exact .inr ⟨_, e, rfl, (extends_dropTemporary htemporary hdir).cwd,
      get?_dropTemporary htemporary hdir⟩

end LspClient.FileTree
