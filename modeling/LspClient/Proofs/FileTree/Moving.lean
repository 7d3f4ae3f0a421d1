import LspClient.Proofs.FileTree.Replacing

/-!
# Renaming and moving

All that a rename can do (`rename_inv`). A file that is renamed takes the place of what is no
directory (`tookPlace_of_rename`); a directory takes all that is below it along, and comes to where
there was nothing, or an empty directory (`Moves`).

What leads on after a directory was moved is what led on before (`Moves.agrees`). So names that lead
to a directory both before and after lead to the same one (`Walk.meets`).
-/

namespace LspClient.FileTree

variable {t t' : FileTree} {last : Bool} {n k : Nat} {p q : Path} {loc l : Location} {name : String}
  {names : List String} {node a b : Node} {content : List UInt8}

/-! ### Ways that agree -/

/-- Where both trees have something that leads on, it is the same but for its mode. -/
structure Agrees (t t' : FileTree) : Prop where
  cwd : t'.cwd = t.cwd
  get? : ∀ l a b, t.get? l = some a → t'.get? l = some b → a.isFile = false → b.isFile = false →
    b.withMode 0 = a.withMode 0

theorem isDir_of_not_link (hfile : node.isFile = false) (hlink : ∀ s, node ≠ .link s) :
    node.isDir = true := by
  cases node with
  | file => cases hfile
  | dir => rfl
  | link s => exact absurd rfl (hlink s)

theorem exists_dir_of_isDir (h : node.isDir = true) : ∃ mode, node = .dir mode := by
  cases node with
  | dir mode => exact ⟨mode, rfl⟩
  | file => cases h
  | link => cases h

theorem Agrees.eq_link {s : String} (h : t.Agrees t') (ha : t.get? l = some (.link s))
    (hb : t'.get? l = some b) (hfile : b.isFile = false) : b = .link s := by
  have hsame := h.get? l _ b ha hb rfl hfile
  cases b with
  | file => cases hfile
  | dir => cases hsame
  | link s' => exact hsame

theorem Agrees.isDir (h : t.Agrees t') (ha : t.get? l = some a) (hisDir : a.isDir = true)
    (hb : t'.get? l = some b) (hfile : b.isFile = false) : ∀ s, b ≠ .link s := by
  rintro s rfl
  have hsame := h.get? l a _ ha hb (isFile_eq_false_of_isDir hisDir) rfl
  cases a with
  | file => cases hisDir
  | dir => cases hsame
  | link => cases hisDir

theorem Walk.here_inv {r : Reached} (h : Walk t last n loc ("." :: names) r) :
    Walk t last n loc names r := by
  generalize hdot : "." = name at h
  cases h with
  | here _ h => exact h
  | up => exact absurd hdot (by decide)
  | free _ hname => exact absurd hdot.symm hname.1
  | stop _ hname => exact absurd hdot.symm hname.1
  | link _ hname => exact absurd hdot.symm hname.1
  | onward _ hname => exact absurd hdot.symm hname.1

theorem Walk.up_inv {r : Reached} (h : Walk t last n loc (".." :: names) r) :
    Walk t last n loc.dropLast names r := by
  generalize hdots : ".." = name at h
  cases h with
  | here => exact absurd hdots (by decide)
  | up _ h => exact h
  | free _ hname => exact absurd hdots.symm hname.2.1
  | stop _ hname => exact absurd hdots.symm hname.2.1
  | link _ hname => exact absurd hdots.symm hname.2.1
  | onward _ hname => exact absurd hdots.symm hname.2.1

/-- Names that lead to a directory in both trees lead to the same one. -/
theorem Walk.meets (hagrees : t.Agrees t') (h : Walk t true n loc names (l, some a))
    (hisDir : a.isDir = true) (h' : Walk t' true k loc names (l', some b))
    (hisDir' : b.isDir = true) : l = l' := by
  have hway : Reached.IsWay (l, some a) := ⟨a, rfl, isFile_eq_false_of_isDir hisDir⟩
  have hway' : Reached.IsWay (l', some b) := ⟨b, rfl, isFile_eq_false_of_isDir hisDir'⟩
  generalize hr : ((l, some a) : Reached) = r at h hway
  generalize hr' : ((l', some b) : Reached) = r' at h' hway'
  suffices hsame : r.1 = r'.1 by
    subst hr hr'
    exact hsame
  clear hr hr' hisDir hisDir'
  -- by induction on one walk: in the other tree each name leads to the same kind of entry
  induction h generalizing k with
  | done =>
    cases h'
    rfl
  | here _ _ ih => exact ih hway h'.here_inv
  | up _ _ ih => exact ih hway h'.up_inv
  | free =>
    obtain ⟨_, hnone, -⟩ := hway
    cases hnone
  | stop _ _ _ hlast => cases hlast
  | link _ hname hlink _ _ ih =>
    cases h' with
    | here => exact absurd rfl hname.1
    | up => exact absurd rfl hname.2.1
    | free =>
      obtain ⟨_, hnone, -⟩ := hway'
      cases hnone
    | stop _ _ _ hlast => cases hlast
    | link _ _ hlink' _ h' =>
      cases hagrees.eq_link hlink hlink' rfl
      exact ih hway h'
    | onward _ _ hsome hnot h' =>
      exact absurd (hagrees.eq_link hlink hsome (h'.isFile_eq_false hway' hsome)) (hnot _)
  | onward _ hname hsome hnot h ih =>
    have hdir := isDir_of_not_link (h.isFile_eq_false hway hsome) hnot
    cases h' with
    | here => exact absurd rfl hname.1
    | up => exact absurd rfl hname.2.1
    | free =>
      obtain ⟨_, hnone, -⟩ := hway'
      cases hnone
    | stop _ _ _ hlast => cases hlast
    | link _ _ hlink' _ h' => exact absurd rfl (hagrees.isDir hsome hdir hlink' rfl _)
    | onward _ _ _ _ h' => exact ih hway h'

theorem Agrees.of_keepsWays {t'' : FileTree} (h : t.Agrees t') (hkeeps : t''.KeepsWays t') :
    t.Agrees t'' :=
  ⟨hkeeps.cwd.symm.trans h.cwd, fun l a b ha hb hafile hbfile =>
    h.get? l a b ha (hkeeps.get? l b hb hbfile) hafile hbfile⟩

/-- A path that names an entry in both trees names the same one. -/
theorem Agrees.slot_eq {loc' : Location} {dir dir' : Node} {s s' : String} {e e' : FileError}
    (h : t.Agrees t') (hslot : t.slot p e = .ok (loc, dir, s))
    (hslot' : t'.slot p e' = .ok (loc', dir', s')) : loc = loc' ∧ s = s' := by
  obtain ⟨hparent, hlast, -⟩ := slot_eq_ok.1 hslot
  obtain ⟨hparent', hlast', -⟩ := slot_eq_ok.1 hslot'
  obtain ⟨-, hwalk, hisDir, -⟩ := parent_eq_ok.1 hparent
  obtain ⟨-, hwalk', hisDir', -⟩ := parent_eq_ok.1 hparent'
  rw [startOf_eq_of_cwd h.cwd] at hwalk'
  cases hlast.symm.trans hlast'
  exact ⟨hwalk.meets h hisDir hwalk' hisDir', rfl⟩

/-! ### Renaming -/

/-- All that a rename can do. -/
theorem rename_inv (h : t.rename q p = .ok t') : ∃ loc dir name loc' dir' name' node,
    t.slot q .busy = .ok (loc, dir, name) ∧ t.slot p .busy = .ok (loc', dir', name') ∧
      t.get? (loc ++ [name]) = some node ∧ (endsInSlash q.text = true → node.isDir = true) ∧
      ((loc ++ [name] = loc' ++ [name'] ∧ t' = t) ∨
        (¬ loc ++ [name] <+: loc' ++ [name'] ∧ ¬ loc' ++ [name'] <+: loc ++ [name] ∧
          (∀ there, t.get? (loc' ++ [name']) = some there →
            there.isDir = node.isDir ∧ t.isEmptyDir (loc' ++ [name']) = true) ∧
          t' = t.move (loc ++ [name]) (loc' ++ [name']))) := by
  unfold rename at h
  cases hslot : t.slot q .busy with
  | error e =>
    rw [hslot] at h
    cases hq : t.parent q <;> cases hp : t.parent p <;> rw [hq, hp] at h <;> cases h
  | ok x =>
    obtain ⟨loc, dir, name⟩ := x
    cases hslot' : t.slot p .busy with
    | error e =>
      rw [(slot_eq_ok.1 hslot).1, hslot, hslot'] at h
      cases hp : t.parent p <;> rw [hp] at h <;> cases h
    | ok y =>
      obtain ⟨loc', dir', name'⟩ := y
      rw [(slot_eq_ok.1 hslot).1, (slot_eq_ok.1 hslot').1, hslot, hslot'] at h
      simp only [bind, Except.bind] at h
      split at h
      · cases h
      next node hnode =>
      split at h
      · cases h
      next hslash =>
      refine ⟨loc, dir, name, loc', dir', name', node, rfl, rfl, hnode, fun hq => ?_, ?_⟩
      · by_contra hnot
        exact hslash ⟨by simpa using hnot, .inl hq⟩
      split at h
      · next heq =>
        cases h
        exact .inl ⟨heq, rfl⟩
      split at h
      · cases h
      next hpre =>
      split at h
      · cases h
      next hpre' =>
      rw [List.isPrefixOf_iff_prefix] at hpre hpre'
      split at h
      · cases h
      refine .inr ⟨hpre, hpre', ?_⟩
      split at h
      · next hnone =>
        cases h
        exact ⟨by simp [hnone], rfl⟩
      next there hthere =>
      split at h
      · cases h
      next hkind =>
      split at h
      · cases h
      next hkind' =>
      split at h
      · cases h
      next hempty =>
      cases h
      refine ⟨fun there' hthere' => ?_, rfl⟩
      cases hthere.symm.trans hthere'
      have hsame : there.isDir = node.isDir := by
        cases hd : node.isDir <;> cases hd' : there.isDir <;> simp_all
      exact ⟨hsame, by simpa using hempty⟩

/-- A file that is renamed takes the place of what is no directory. -/
theorem tookPlace_of_rename (hwf : t.WellFormed) (h : t.rename q p = .ok t')
    (hslot : t.slot q .busy = .ok (loc, dir, name))
    (hfile : t.get? (loc ++ [name]) = some (.file content 0o600)) : ∃ loc' dir' name',
      t.slot p .busy = .ok (loc', dir', name') ∧
        (∀ mode, t.get? (loc' ++ [name']) ≠ some (.dir mode)) ∧
        TookPlace t content (loc ++ [name]) (loc' ++ [name']) t' := by
  obtain ⟨_, _, _, loc', dir', name', node, hslot₁, hslot', hnode, -, hdone⟩ := rename_inv h
  cases hslot.symm.trans hslot₁
  cases hfile.symm.trans hnode
  have hself : ∀ mode, t.get? (loc ++ [name]) ≠ some (.dir mode) := by simp [hfile]
  refine ⟨loc', dir', name', hslot', ?_⟩
  rcases hdone with ⟨heq, rfl⟩ | ⟨hne, -, hthere, rfl⟩
  · rw [← heq]
    refine ⟨hself, rfl, fun l => ?_⟩
    split
    · next hl => rw [hl, hfile]
    · rfl
  · have hdir : ∀ mode, t.get? (loc' ++ [name']) ≠ some (.dir mode) := fun mode hmode => by
      cases (hthere _ hmode).1
    refine ⟨hdir, rfl, fun l => ?_⟩
    have hne' : loc ++ [name] ≠ loc' ++ [name'] := by
      intro heq
      rw [heq] at hne
      exact hne List.prefix_rfl
    rw [get?_move t hne' (fun _ => hwf.get?_below hself)
      (fun _ => hwf.get?_below hdir), hfile]

/-! ### Moving a directory -/

theorem lookup_retarget_below {source target : Location} (hpre : ¬ source <+: target)
    (hpre' : ¬ target <+: source) (es : List (Location × Node)) (l : Location) :
    ((es.filter fun e => !(target.isPrefixOf e.1)).map fun e =>
      if source.isPrefixOf e.1 then (target ++ e.1.drop source.length, e.2) else e).lookup l =
      if target <+: l then es.lookup (source ++ l.drop target.length)
      else if source <+: l then none else es.lookup l := by
  -- nothing is at or below both
  have hapart {k : Location} (h : source <+: k) (h' : target <+: k) : False :=
    (List.prefix_or_prefix_of_prefix h h').elim hpre hpre'
  -- by induction on the entries: each one is dropped, moved or kept
  induction es with
  | nil => simp
  | cons e es ih =>
    obtain ⟨k, node⟩ := e
    by_cases htarget : target <+: k
    · rw [List.filter_cons_of_neg (by simpa using htarget), ih]
      by_cases hl : target <+: l
      · have hne : source ++ l.drop target.length ≠ k := by
          rintro rfl
          exact hapart (List.prefix_append ..) htarget
        rw [if_pos hl, if_pos hl, Table.lookup_cons, if_neg hne]
      · have hne : l ≠ k := fun heq => hl (heq ▸ htarget)
        rw [if_neg hl, if_neg hl, Table.lookup_cons, if_neg hne]
    · rw [List.filter_cons_of_pos
        (by simpa [List.isPrefixOf_iff_prefix, ← Bool.not_eq_true] using htarget), List.map_cons]
      by_cases hsource : source <+: k
      · obtain ⟨rest, rfl⟩ := hsource
        simp only [List.isPrefixOf_iff_prefix.2 (List.prefix_append source rest), if_true,
          List.drop_left, Table.lookup_cons, ih]
        by_cases hl : target <+: l
        · obtain ⟨rest', rfl⟩ := hl
          simp
        · have hne : l ≠ target ++ rest := by
            rintro rfl
            exact hl (List.prefix_append ..)
          rw [if_neg hne, if_neg hl, if_neg hl]
          by_cases hl' : source <+: l
          · rw [if_pos hl', if_pos hl']
          · have hne' : l ≠ source ++ rest := by
              rintro rfl
              exact hl' (List.prefix_append ..)
            rw [if_neg hl', if_neg hl', if_neg hne']
      · have hnot : source.isPrefixOf k = false := by
          rw [Bool.eq_false_iff, ne_eq, List.isPrefixOf_iff_prefix]
          exact hsource
        simp only [hnot, Bool.false_eq_true, if_false, Table.lookup_cons, ih]
        by_cases hl : target <+: l
        · have hne : l ≠ k := fun heq => htarget (heq ▸ hl)
          have hne' : source ++ l.drop target.length ≠ k := by
            rintro rfl
            exact hsource (List.prefix_append ..)
          rw [if_neg hne, if_neg hne', if_pos hl, if_pos hl]
        · rw [if_neg hl, if_neg hl]
          by_cases hl' : source <+: l
          · have hne : l ≠ k := fun heq => hsource (heq ▸ hl')
            rw [if_pos hl', if_pos hl', if_neg hne]
          · rw [if_neg hl', if_neg hl']

/-- An entry is moved with all that is below it. -/
theorem get?_move_below (t : FileTree) {source target : Location} (hpre : ¬ source <+: target)
    (hpre' : ¬ target <+: source) (l : Location) : (t.move source target).get? l =
      if target <+: l then t.get? (source ++ l.drop target.length)
      else if source <+: l then none else t.get? l :=
  lookup_retarget_below hpre hpre' t.entries l

/-- Nothing is below an empty directory. -/
theorem WellFormed.get?_of_isEmptyDir (hwf : t.WellFormed) (h : t.isEmptyDir loc = true)
    {names : List String} (hnames : names ≠ []) : t.get? (loc ++ names) = none := by
  have hchild (s : String) : t.get? (loc ++ [s]) = none := by
    by_contra hne
    obtain ⟨node, hnode⟩ := Option.ne_none_iff_exists'.1 hne
    obtain ⟨before, after, hentries, -⟩ := List.lookup_eq_some_iff.1 hnode
    rw [isEmptyDir, List.isEmpty_iff, children, List.filterMap_eq_nil_iff] at h
    have hnone := h (loc ++ [s], node) (by simp [hentries])
    simp at hnone
  cases names with
  | nil => exact absurd rfl hnames
  | cons s rest =>
    cases rest with
    | nil => exact hchild s
    | cons s' rest =>
      have hbelow : t.get? (loc ++ [s] ++ s' :: rest) = none :=
        hwf.get?_below (by simp [hchild s]) (List.cons_ne_nil s' rest)
      rwa [List.append_assoc] at hbelow

/-- A directory that is renamed comes to where there was nothing, or an empty directory. -/
structure Moves (t : FileTree) (source target : Location) (t' : FileTree) : Prop where
  apart : ¬ source <+: target
  apart' : ¬ target <+: source
  moved : ∃ mode, t.get? source = some (.dir mode)
  free : ∀ there, t.get? target = some there → there.isDir = true ∧ t.isEmptyDir target = true
  above : ∃ mode, t.get? target.dropLast = some (.dir mode)
  tree : t' = t.move source target

namespace Moves

variable {source target : Location} (h : Moves t source target t') (hwf : t.WellFormed)

include h hwf

theorem below {names : List String} (hnames : names ≠ []) : t.get? (target ++ names) = none := by
  cases hthere : t.get? target with
  | none => exact hwf.get?_below (by simp [hthere]) hnames
  | some there => exact hwf.get?_of_isEmptyDir (h.free there hthere).2 hnames

theorem get?_of_ne (hl : t.get? l = some node) (hne : l ≠ target) (hsource : ¬ source <+: l) :
    t'.get? l = some node := by
  have htarget : ¬ target <+: l := by
    rintro ⟨rest, rfl⟩
    rw [h.below hwf fun hnil => hne (by simp [hnil])] at hl
    cases hl
  rw [h.tree, get?_move_below t h.apart h.apart', if_neg htarget, if_neg hsource, hl]

theorem agrees : t.Agrees t' := by
  refine ⟨by rw [h.tree]; rfl, fun l a b ha hb _ _ => ?_⟩
  rw [h.tree, get?_move_below t h.apart h.apart'] at hb
  split at hb
  · next htarget =>
    obtain ⟨rest, rfl⟩ := htarget
    by_cases hnil : rest = []
    · obtain ⟨mode, hmode⟩ := h.moved
      subst hnil
      rw [List.append_nil] at ha
      simp only [List.append_nil, List.drop_length, hmode] at hb
      cases hb
      obtain ⟨hisDir, -⟩ := h.free a ha
      cases a with
      | dir => rfl
      | file => cases hisDir
      | link => cases hisDir
    · rw [h.below hwf hnil] at ha
      cases ha
  · split at hb
    · cases hb
    · rw [Option.some.inj (ha.symm.trans hb)]

theorem wellFormed : t'.WellFormed := by
  obtain ⟨mode, hroot⟩ := hwf.root
  have hne : target ≠ [] := by
    rintro rfl
    exact h.apart' List.nil_prefix
  refine ⟨⟨mode, h.get?_of_ne hwf hroot hne.symm fun hpre => ?_⟩, fun loc name hsome => ?_⟩
  · rw [List.prefix_nil.1 hpre] at h
    exact h.apart List.nil_prefix
  rw [h.tree, get?_move_below t h.apart h.apart'] at hsome
  split at hsome
  · next htarget =>
    rcases List.prefix_concat_iff.1 htarget with rfl | hpre
    · -- what was moved is in the directory that it was moved to
      obtain ⟨mode, hmode⟩ := h.above
      rw [List.dropLast_concat] at hmode
      refine ⟨mode, h.get?_of_ne hwf hmode (by simp) fun hpre => ?_⟩
      exact h.apart (hpre.trans (List.prefix_append ..))
    · obtain ⟨rest, rfl⟩ := hpre
      rw [List.append_assoc, List.drop_left, ← List.append_assoc] at hsome
      obtain ⟨mode, hmode⟩ := hwf.above _ _ hsome
      refine ⟨mode, ?_⟩
      rw [h.tree, get?_move_below t h.apart h.apart', if_pos (List.prefix_append ..),
        List.drop_left, hmode]
  · next htarget =>
    split at hsome
    · exact absurd rfl hsome
    · next hsource =>
      obtain ⟨mode, hmode⟩ := hwf.above _ _ hsome
      refine ⟨mode, h.get?_of_ne hwf hmode ?_ fun hpre => ?_⟩
      · rintro rfl
        exact htarget (List.prefix_append ..)
      · exact hsource (hpre.trans (List.prefix_append ..))

end Moves

end LspClient.FileTree
