import LspClient.Proofs.FileTree.Modes
import LspClient.Proofs.FileTree.Moving
import LspClient.Proofs.Json.Ordered

/-!
# Reading what was replaced

A path that leads to a file after a `replace` leads to the new content (`stat_replace`), and it does
lead to a file if it led to something before, or does not run through the link that it names
(`exists_stat_replace`).

Without this condition the way to the path's directory may have changed. But the directories and
links that are still on it are those that were there (`Agrees`), so if it can still be followed to a
directory, this is the same as before (`Settled`). Where a directory was moved aside there was
nothing left at the path when the file came, and the way has not changed (`holds_of_aside`).
-/

namespace LspClient.FileTree

variable {t t' t'' M cleared moved settled : FileTree} {p q tmp : Path} {loc loc' l : Location}
  {name s b : String} {node dir dir' : Node} {content bytes : List UInt8} {e e' : FileError}

/-! ### Files with a text -/

/-- What can be read as a text is a regular file, readable, in UTF-8. -/
theorem readText_eq_ok {text : String} : t.readText p = .ok text ↔ ∃ l bytes mode,
    t.resolve p true = .ok (l, some (.file bytes mode)) ∧
      (Node.file bytes mode).readable = true ∧ Utf8.decode? bytes = some text := by
  constructor
  · intro h
    obtain ⟨bytes, hread, h⟩ := Json.of_bind_ok h
    obtain ⟨⟨l, node⟩, hstat, hnode⟩ := Json.of_bind_ok hread
    have hresolve := stat_eq_ok.1 hstat
    cases node with
    | file bytes' mode =>
      dsimp only at hnode
      split at hnode
      · next hreadable =>
        cases hnode
        refine ⟨l, bytes, mode, hresolve, hreadable, ?_⟩
        split at h
        · next text' htext =>
          cases h
          exact htext
        · cases h
      · cases hnode
    | dir _ | link _ => cases hnode
  · rintro ⟨l, bytes, mode, hresolve, hreadable, htext⟩
    simp [readText, readFile, stat_eq_ok.2 hresolve, hreadable, htext, bind, Except.bind, pure,
      Except.pure]

/-- Where a path leads to something, it is not for that that nothing can be read. -/
theorem readText_ne_notFound (h : t.stat p = .ok (l, node)) : t.readText p ≠ .error .notFound := by
  have hread : t.readFile p ≠ .error .notFound := by
    cases node with
    | file bytes mode =>
      cases hreadable : (Node.file bytes mode).readable <;>
        simp [readFile, h, hreadable, bind, Except.bind, pure, Except.pure]
    | dir _ | link _ =>
      simp only [readFile, h, bind, Except.bind]
      split <;> simp
  intro hnone
  rw [readText] at hnone
  cases hbytes : t.readFile p with
  | error e =>
    rw [hbytes] at hnone hread
    cases hnone
    exact hread rfl
  | ok bytes =>
    rw [hbytes] at hnone
    cases htext : Utf8.decode? bytes <;> simp [htext, bind, Except.bind, pure, Except.pure] at hnone

/-! ### What a path names -/

/-- The path names a file with this content. -/
structure Holds (t : FileTree) (p : Path) (content : List UInt8) : Prop where
  slash : endsInSlash p.text = false
  entry : ∃ loc dir name mode, t.slot p .busy = .ok (loc, dir, name) ∧
    t.get? (loc ++ [name]) = some (.file content mode)

theorem Holds.stat (h : t.Holds p content) : ∃ l mode, t.stat p = .ok (l, .file content mode) := by
  obtain ⟨loc, dir, name, mode, hslot, hfile⟩ := h.entry
  refine ⟨loc ++ [name], mode, stat_eq_ok.2 ?_⟩
  rw [resolve_of_slot hslot h.slash (by simp [hfile]), hfile]

theorem Holds.setMode {mode : Nat} (h : t.Holds p content) (hset : t.setMode p mode = .ok t') :
    t'.Holds p content := by
  obtain ⟨loc, dir, name, old, hslot, hfile⟩ := h.entry
  rw [setMode_of_slot hslot h.slash hfile nofun] at hset
  cases hset
  exact ⟨h.slash, loc, dir, name, mode, slot_insert_file hslot hfile, get?_insert_self _ _ _⟩

/-- Where there was nothing, a file that comes is on no way. -/
theorem TookPlace.keepsWays_of_free {old target : Location}
    (htook : TookPlace t content old target t') (hold : t.get? old = some (.file content 0o600))
    (hfree : t.get? target = none) : t.KeepsWays t' := by
  refine ⟨htook.cwd, fun l node hl hnode => ?_⟩
  rw [htook.get?]
  split
  · next heq =>
    rw [heq, hfree] at hl
    cases hl
  · split
    · next heq =>
      rw [heq, hold] at hl
      cases hl
      cases hnode
    · exact hl

/-! ### Backups -/

/-- A text that does not end in a slash ends with its last name. -/
theorem getLast?_namesOf {text : String} {cs : List Char} {c : Char}
    (htext : text.toList = cs ++ [c]) (hslash : c ≠ '/') :
    ∃ s : String, (namesOf text).getLast? = some s ∧ s.toList.getLast? = some c := by
  have hpieces (offset : Nat) (acc : List Char) : ∃ before s stop,
      Path.pieces offset acc (cs ++ [c]) = before ++ [(s ++ [c], stop)] := by
    clear htext
    induction cs generalizing offset acc with
    | nil => exact ⟨[], acc.reverse, offset + 1, by simp [Path.pieces, hslash]⟩
    | cons d cs ih =>
      rw [List.cons_append, Path.pieces]
      split
      · obtain ⟨before, s, stop, hrest⟩ := ih (offset + 1) []
        exact ⟨(acc.reverse, offset) :: before, s, stop, by rw [hrest, List.cons_append]⟩
      · exact ih (offset + 1) (d :: acc)
  obtain ⟨before, s, stop, hlast⟩ := hpieces 0 []
  refine ⟨String.ofList (s ++ [c]), ?_, by simp⟩
  rw [namesOf, htext, hlast]
  simp [List.filter_append]

/-- No backup has the name of a temporary file. -/
theorem withExtension_ne_temporary (p : Path) : p.withExtension "bak" = p ∨
    ∀ s i, lastOf (p.withExtension "bak") = .name s → s ≠ temporaryName i := by
  unfold Path.withExtension
  split
  · refine .inr fun s i hlast heq => ?_
    have htext (cs : List Char) : (String.ofList cs ++ "." ++ "bak").toList =
        (cs ++ ['.', 'b', 'a']) ++ ['k'] := by
      rw [String.toList_append, String.toList_append, String.toList_ofList, List.append_assoc,
        List.append_assoc]
      rfl
    obtain ⟨s', hs', hend⟩ := getLast?_namesOf (htext _) (by decide)
    obtain ⟨hs, -⟩ := lastOf_eq_name hlast
    cases hs.symm.trans hs'
    have hmem := List.mem_of_getLast? hend
    rw [heq] at hmem
    exact not_mem_temporaryName (by decide) (by decide) i hmem
  · exact .inl rfl

/-! ### Moving aside -/

/-- What a file is removed from has lost an entry that is no directory. -/
theorem removeFile_inv (h : t.removeFile q = .ok t') : ∃ loc dir name node,
    t.slot q .isDirectory = .ok (loc, dir, name) ∧ t.get? (loc ++ [name]) = some node ∧
      node.isDir = false ∧ t' = t.erase (loc ++ [name]) := by
  unfold removeFile at h
  cases hslot : t.slot q .isDirectory with
  | error e =>
    rw [hslot] at h
    cases h
  | ok x =>
    obtain ⟨loc, dir, name⟩ := x
    rw [hslot] at h
    simp only [bind, Except.bind] at h
    split at h
    · cases h
    next node hnode =>
    split at h
    · cases h
    split at h
    · cases h
    next hisDir =>
    split at h
    · cases h
    cases h
    exact ⟨loc, dir, name, node, rfl, hnode, by simpa using hisDir, rfl⟩

theorem get?_of_erase (h : (t.erase loc).get? l = some node) : t.get? l = some node := by
  rwa [get?_erase_ne t] at h
  rintro rfl
  rw [get?_erase_self] at h
  cases h

theorem wellFormed_erase (hwf : t.WellFormed) (hnode : t.get? loc = some node)
    (hnot : node.isDir = false) : (t.erase loc).WellFormed := by
  have hkept {l : Location} {mode : Nat} (hl : t.get? l = some (.dir mode)) :
      (t.erase loc).get? l = some (.dir mode) := by
    rw [get?_erase_ne t, hl]
    rintro rfl
    cases hl.symm.trans hnode
    cases hnot
  obtain ⟨mode, hroot⟩ := hwf.root
  refine ⟨⟨mode, hkept hroot⟩, fun loc' name hne => ?_⟩
  obtain ⟨node', hnode'⟩ := Option.ne_none_iff_exists'.1 hne
  obtain ⟨mode, hmode⟩ := hwf.above loc' name (by rw [get?_of_erase hnode']; nofun)
  exact ⟨mode, hkept hmode⟩

/-- What is out of the way before a directory is moved is its backup at most. -/
theorem cleared_of_backup (hwf : t.WellFormed)
    (h : cleared = t ∨ t.removeFile q = .ok cleared) : cleared.Extends t ∧ cleared.WellFormed ∧
      ∀ l node, t.get? l = some node →
        cleared.get? l = some node ∨ ∃ loc s, l = loc ++ [s] ∧ lastOf q = .name s := by
  rcases h with rfl | hremove
  · exact ⟨.refl _, hwf, fun l node hl => .inl hl⟩
  · obtain ⟨loc, dir, s, node, hslot, hnode, hnot, rfl⟩ := removeFile_inv hremove
    refine ⟨⟨rfl, fun l node hl => get?_of_erase hl⟩, wellFormed_erase hwf hnode hnot,
      fun l node hl => ?_⟩
    by_cases heq : l = loc ++ [s]
    · exact .inr ⟨loc, s, heq, (slot_eq_ok.1 hslot).2.1⟩
    · exact .inl (by rw [get?_erase_ne _ heq, hl])

/-- In a tree with less in it, where the path's directory is found, so is the temporary file. -/
theorem Temporary.slot_of_parent (h : Temporary M (directoryOf p) content t' tmp loc name)
    (hless : t.Extends t') {s : String} (hslot : t.slot p e = .ok (l, dir, s)) :
    l = loc ∧ t.slot tmp .busy = .ok (loc, dir, name) := by
  obtain ⟨hparent, hlast, hshort⟩ := slot_eq_ok.1 hslot
  obtain ⟨-, hwalk, hisDir, hsearch⟩ := parent_eq_ok.1 hparent
  have hslot' : t'.slot p e = .ok (l, dir, s) :=
    slot_eq_ok.2 ⟨parent_mono hparent hless.keepsWays, hlast, hshort⟩
  obtain ⟨rfl, -⟩ := loc_eq_of_slot h hslot'
  refine ⟨rfl, ?_⟩
  obtain ⟨node, htmp, -⟩ := h.slot (directoryOf_ne_empty p)
  obtain ⟨hparent', htmp⟩ := slot_eq_ok.1 htmp
  obtain ⟨hpath, -⟩ := parent_eq_ok.1 hparent'
  refine slot_eq_ok.2 ⟨parent_eq_ok.2 ⟨hpath, ?_, hisDir, hsearch⟩, htmp⟩
  have hdir := directoryOf_ne_empty p
  have hname : name ≠ "" := by
    obtain ⟨i, rfl⟩ := h.numbered
    exact (temporaryName_ne i).1
  rw [h.path, namesOf_join hdir h.slash_not_mem hname, List.dropLast_concat,
    startOf_join _ hdir h.slash_not_mem, startOf_directoryOf _ hlast]
  exact hwalk.dots (enters_of_parent hparent) (directoryOf_eq hlast).2

theorem replaceAside_inv (h : replaceAside t p tmp = ⟨t', none⟩) : ∃ cleared moved settled,
    (cleared = t ∨ t.removeFile (p.withExtension "bak") = .ok cleared) ∧
      cleared.rename p (p.withExtension "bak") = .ok moved ∧ moved.rename tmp p = .ok settled ∧
      (t' = settled ∨ settled.removeFile (p.withExtension "bak") = .ok t') := by
  unfold replaceAside at h
  dsimp only at h
  cases hremove : t.removeFile (p.withExtension "bak")
  all_goals
    rw [hremove] at h
    dsimp only at h
    split at h
    · cases h
    next moved hmoved =>
    split at h
    · cases h
    next settled hsettled =>
    refine ⟨_, moved, settled, by simp, hmoved, hsettled, ?_⟩
    split at h
    · next last hlast =>
      cases h
      exact .inr hlast
    · cases h
      exact .inl rfl

/-- Where the rename was refused although the path leads somewhere, it names a directory. -/
theorem dir_of_refused (h : Temporary M (directoryOf p) content t' tmp loc name)
    (hwf : t'.WellFormed) {s : String} (hslot : t'.slot p .busy = .ok (loc, dir, s))
    (hslash : endsInSlash p.text = false) (hrefused : t'.rename tmp p = .error e) :
    ∃ mode, t'.get? (loc ++ [s]) = some (.dir mode) := by
  by_contra hnot
  obtain ⟨t'', hrename, -⟩ := rename_temporary h hwf hslot hslash (not_exists.1 hnot)
  cases hrename.symm.trans hrefused

/-- Where the file then comes to the path, it was a directory that was moved, to another place. -/
theorem moves_of_rename (hwf : t.WellFormed)
    (hdir : ∃ mode, t.get? (loc ++ [s]) = some (.dir mode))
    (hslot : t.slot p .busy = .ok (loc, dir, s)) (htmp : t.slot tmp .busy = .ok (loc, dir, name))
    (hfile : t.get? (loc ++ [name]) = some (.file content 0o600))
    (hmoved : t.rename p q = .ok moved) (hsettled : moved.rename tmp p = .ok settled) :
    ∃ loc' dir' b, t.slot q .busy = .ok (loc', dir', b) ∧
      Moves t (loc ++ [s]) (loc' ++ [b]) moved := by
  obtain ⟨mode, hmode⟩ := hdir
  obtain ⟨_, _, _, loc', dir', b, node, hslot', hbackup, hnode, -, hmove⟩ := rename_inv hmoved
  cases hslot.symm.trans hslot'
  cases hmode.symm.trans hnode
  refine ⟨loc', dir', b, hbackup, ?_⟩
  rcases hmove with ⟨-, rfl⟩ | ⟨hpre, hpre', hfree, rfl⟩
  · -- the directory would still be in the way of the file
    obtain ⟨_, _, _, hslot'', hno, -⟩ := tookPlace_of_rename hwf hsettled htmp hfile
    cases hslot.symm.trans hslot''
    exact absurd hmode (hno mode)
  · obtain ⟨there, habove, hisDir, -⟩ := enters_of_parent (slot_eq_ok.1 hbackup).1
    obtain ⟨mode', rfl⟩ := exists_dir_of_isDir hisDir
    exact ⟨hpre, hpre', ⟨mode, hmode⟩, hfree, ⟨mode', by rwa [List.dropLast_concat]⟩, rfl⟩

/-- The file comes to where the directory was, and the directory is where it was moved. -/
theorem Moves.holds (h : Moves t (loc ++ [s]) (loc' ++ [b]) moved) (hwf : t.WellFormed)
    (hslot : t.slot p .busy = .ok (loc, dir, s)) (htmp : t.slot tmp .busy = .ok (loc, dir, name))
    (hfile : t.get? (loc ++ [name]) = some (.file content 0o600)) (hs : name ≠ s) (hb : name ≠ b)
    (hsettled : moved.rename tmp p = .ok settled) :
    settled.Holds p content ∧ t.Agrees settled ∧
      ∃ mode, settled.get? (loc' ++ [b]) = some (.dir mode) := by
  have hagrees := h.agrees hwf
  have hfile' : moved.get? (loc ++ [name]) = some (.file content 0o600) := by
    refine h.get?_of_ne hwf hfile (fun heq => hb (List.append_singleton_inj.1 heq).2) ?_
    exact fun hbelow => hs (List.append_singleton_inj.1 (eq_of_concat_isPrefix hbelow)).2.symm
  -- after the move the temporary file and the path are found where they were
  obtain ⟨_, _, _, _, _, _, _, htmp', -⟩ := rename_inv hsettled
  obtain ⟨rfl, rfl⟩ := hagrees.slot_eq htmp htmp'
  obtain ⟨hslash, -⟩ := slot_of_rename hsettled htmp' hfile'
  obtain ⟨_, _, _, hslot', -, htook⟩ := tookPlace_of_rename (h.wellFormed hwf) hsettled htmp' hfile'
  obtain ⟨rfl, rfl⟩ := hagrees.slot_eq hslot hslot'
  have hfree : moved.get? (loc ++ [s]) = none := by
    rw [h.tree, get?_move_below t h.apart h.apart', if_neg h.apart', if_pos List.prefix_rfl]
  have hkeeps := htook.keepsWays_of_free hfile' hfree
  obtain ⟨hparent, hname⟩ := slot_eq_ok.1 hslot'
  refine ⟨⟨hslash, loc, _, s, _, slot_eq_ok.2 ⟨parent_mono hparent hkeeps, hname⟩,
    by rw [htook.get?, if_pos rfl]⟩, hagrees.of_keepsWays htook.keepsWays, ?_⟩
  obtain ⟨mode, hmode⟩ := h.moved
  have hne : loc' ++ [b] ≠ loc ++ [s] := by
    intro heq
    have hapart := h.apart
    rw [heq] at hapart
    exact hapart List.prefix_rfl
  have hne' : loc' ++ [b] ≠ loc ++ [name] :=
    fun heq => hb (List.append_singleton_inj.1 heq).2.symm
  refine ⟨mode, ?_⟩
  rw [htook.get?, if_neg hne, if_neg hne', h.tree, get?_move_below t h.apart h.apart',
    if_pos List.prefix_rfl, List.drop_length, List.append_nil, hmode]

/-- Where a directory is in the way, it is moved aside, and the path names the new file. -/
theorem holds_of_aside (h : Temporary M (directoryOf p) content t tmp loc name)
    (hwf : M.WellFormed) (hrefused : t.rename tmp p = .error e)
    (hdone : replaceAside t p tmp = ⟨t', none⟩) : t'.Holds p content := by
  have hwf' := h.wellFormed hwf
  obtain ⟨cleared, moved, settled, hcleared, hmoved, hsettled, hlast⟩ := replaceAside_inv hdone
  obtain ⟨hextends, hwfc, hkept⟩ := cleared_of_backup hwf' hcleared
  -- what the path names is a directory, in the directory of the temporary file
  obtain ⟨loc₁, dir, s, _, _, b, node, hslot, hbackup, hnode, hslash, -⟩ := rename_inv hmoved
  obtain ⟨rfl, htmp⟩ := h.slot_of_parent hextends hslot
  obtain ⟨mode, rfl⟩ : ∃ mode, node = .dir mode := by
    cases hp : endsInSlash p.text with
    | true => exact exists_dir_of_isDir (hslash hp)
    | false =>
      obtain ⟨hparent, hlast⟩ := slot_eq_ok.1 hslot
      obtain ⟨mode, hmode⟩ := dir_of_refused h hwf'
        (slot_eq_ok.2 ⟨parent_mono hparent hextends.keepsWays, hlast⟩) hp hrefused
      exact ⟨mode, Option.some.inj ((hextends.get? _ _ hnode).symm.trans hmode)⟩
  -- the temporary file has neither its name nor that of its backup
  have hs : name ≠ s := by
    rintro rfl
    cases (hextends.get? _ _ hnode).symm.trans h.get?_self
  obtain ⟨-, hb, -⟩ := slot_eq_ok.1 hbackup
  have hne : name ≠ b := by
    rcases withExtension_ne_temporary p with heq | hother
    · rw [heq, (slot_eq_ok.1 hslot).2.1] at hb
      cases hb
      exact hs
    · obtain ⟨i, hi⟩ := h.numbered
      exact fun heq => hother b i hb (heq ▸ hi)
  have hfile : cleared.get? (loc₁ ++ [name]) = some (.file content 0o600) := by
    rcases hkept _ _ h.get?_self with hfile | ⟨_, _, heq, hs'⟩
    · exact hfile
    · obtain ⟨-, rfl⟩ := List.append_singleton_inj.1 heq
      cases hb.symm.trans hs'
      exact absurd rfl hne
  obtain ⟨_, _, _, hbackup', hmoves⟩ :=
    moves_of_rename hwfc ⟨mode, hnode⟩ hslot htmp hfile hmoved hsettled
  cases hbackup.symm.trans hbackup'
  obtain ⟨hholds, hagrees, mode', hmode'⟩ := hmoves.holds hwfc hslot htmp hfile hs hne hsettled
  rcases hlast with rfl | hremove
  · exact hholds
  · -- a directory cannot be removed as a file
    obtain ⟨_, _, _, node, hslot', hnode', hnot, -⟩ := removeFile_inv hremove
    obtain ⟨rfl, rfl⟩ := hagrees.slot_eq hbackup hslot'
    cases hmode'.symm.trans hnode'
    cases hnot

/-! ### The specification -/

/-- The path names the new file, or it led to nothing, and the new file was put where it says. -/
theorem holds_or_tookPlace (hwf : t.WellFormed) (hok : (t.replace p content).error = none) :
    (t.replace p content).tree.Holds p content ∨
      (t.withParents p).node? p = none ∧ ∃ t' tmp loc dir name s,
        Temporary (t.withParents p) (directoryOf p) content t' tmp loc name ∧
          t'.slot p .busy = .ok (loc, dir, s) ∧ endsInSlash p.text = false ∧
          (∀ mode, t'.get? (loc ++ [s]) ≠ some (.dir mode)) ∧
          TookPlace t' content (loc ++ [name]) (loc ++ [s]) (t.replace p content).tree := by
  obtain ⟨t', tmp, done, htmp, hpersist, hlate⟩ := replace_ok hok
  obtain ⟨loc, name, h⟩ := temporary_of_makeTemporary htmp
  have hwfp := (grows_withParents t p).wellFormed hwf
  unfold persist at hpersist
  split at hpersist
  · next t'' hrename =>
    cases hpersist
    obtain ⟨_, hself, -⟩ := h.slot (directoryOf_ne_empty p)
    obtain ⟨hslash, -⟩ := slot_of_rename hrename hself h.get?_self
    obtain ⟨loc', dir, s, hslot, hdir, htook⟩ :=
      tookPlace_of_rename (h.wellFormed hwfp) hrename hself h.get?_self
    obtain ⟨rfl, -⟩ := loc_eq_of_slot h hslot
    -- there was nothing at the path before, or the mode of what was there is put back
    rcases hlate with ⟨hnone, htree⟩ | ⟨node, last, -, hset, htree⟩
    · rw [htree]
      exact .inr ⟨hnone, t', tmp, loc', dir, name, s, h, hslot, hslash, hdir, htook⟩
    · obtain ⟨hslot', rfl⟩ := eq_of_setMode hslot hslash htook hset
      have hfile : done.get? (loc' ++ [s]) = some (.file content 0o600) := by
        rw [htook.get?, if_pos rfl]
      rw [htree]
      exact .inl ⟨hslash, loc', dir, s, _, slot_insert_file hslot' hfile, get?_insert_self _ _ _⟩
  · next e hrefused =>
    split at hpersist
    · have hholds := holds_of_aside h hwfp hrefused hpersist
      rcases hlate with ⟨-, htree⟩ | ⟨node, last, -, hset, htree⟩
      · exact .inl (htree ▸ hholds)
      · exact .inl (htree ▸ hholds.setMode hset)
    · cases hpersist

/-- When a file was replaced, its path leads to the new content if it leads to anything. -/
theorem stat_replace (hwf : t.WellFormed) (hok : (t.replace p content).error = none)
    (hstat : (t.replace p content).tree.stat p = .ok (l, node)) :
    ∃ mode, node = .file content mode := by
  rcases holds_or_tookPlace hwf hok with
    hholds | ⟨-, t', tmp, loc, dir, name, s, -, hslot, hslash, -, htook⟩
  · obtain ⟨l', mode, hstat'⟩ := hholds.stat
    cases hstat.symm.trans hstat'
    exact ⟨mode, rfl⟩
  · exact ⟨_, (htook.slot_of_stat hslot hslash hstat).2.2⟩

/-- A path that leads to something, or does not run through the link that it names. -/
def LeadsBack (t : FileTree) (p : Path) : Prop :=
  (t.withParents p).node? p = none → (t.withParents p).PassesBy p

/-- The path then leads to the new content when the file was replaced. -/
theorem exists_stat_replace (hwf : t.WellFormed) (hok : (t.replace p content).error = none)
    (hback : t.LeadsBack p) :
    ∃ l mode, (t.replace p content).tree.stat p = .ok (l, .file content mode) := by
  rcases holds_or_tookPlace hwf hok with
    hholds | ⟨hnone, t', tmp, loc, dir, name, s, h, hslot, hslash, hdir, htook⟩
  · exact hholds.stat
  · have hslot' := (slot_of_tookPlace h hdir (hback hnone) hslot htook).2
    exact Holds.stat ⟨hslash, loc, dir, s, _, hslot', by rw [htook.get?, if_pos rfl]⟩

end LspClient.FileTree
