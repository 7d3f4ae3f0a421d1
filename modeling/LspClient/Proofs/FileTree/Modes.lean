import LspClient.Proofs.FileTree.Replacing
import Mathlib.Data.Nat.Bitwise

/-!
# The mode of a replaced file

`replace` looks up what a path leads to before the temporary file takes its place, and gives its
permissions to the new file. It can only do so where the path leads to the new file
(`eq_of_setMode`). Where the path led to nothing, the new file is left with the mode of temporary
files, whatever the umask is: this is the mode that new files get elsewhere for few umasks only
(`newFileMode_eq_iff`), and not for the usual one (`replace_mode_of_new`).

`replace_mode` is said of paths that do not name a directory, with the directories above them made.
A path that led to nothing must not lead through the link that it names, either: only a path with
too many links does.
-/

namespace LspClient.FileTree

variable {t t' t'' M : FileTree} {last : Bool} {n : Nat} {p : Path} {loc l : Location}
  {name s : String} {names : List String} {r : Reached} {node dir : Node} {content : List UInt8}
  {tmp : Path} {mode : Nat}

/-! ### Modes -/

/-- The mode of temporary files. -/
def temporaryMode : Nat := 0o600

/-- The mode of new files, by the umask. -/
def newFileMode (t : FileTree) : Nat := 0o666 &&& (0o777 ^^^ t.umask)

/-- The twelve bits of a mode that are permissions. -/
def permissions (mode : Nat) : Nat := mode &&& 0o7777

/-- The umask takes exactly those permissions that temporary files do not have. -/
theorem newFileMode_eq_iff (t : FileTree) :
    t.newFileMode = temporaryMode ↔ t.umask &&& 0o666 = 0o066 := by
  have hsmall : ∀ u < 512, 0o666 &&& (0o777 ^^^ u) = 0o600 ↔ u &&& 0o666 = 0o066 := by
    decide +kernel
  have hmask (a : Nat) : a &&& 0o666 = a % 2 ^ 9 &&& 0o666 := by
    have h : (a &&& 0o666) % 2 ^ 9 = a &&& 0o666 :=
      Nat.mod_eq_of_lt (Nat.lt_of_le_of_lt Nat.and_le_right (by decide))
    rw [← h, Nat.and_mod_two_pow]
  have hnew : t.newFileMode = 0o666 &&& (0o777 ^^^ t.umask % 2 ^ 9) := by
    rw [newFileMode, Nat.land_comm, hmask, Nat.xor_mod_two_pow, Nat.land_comm]
  rw [hnew, hmask t.umask]
  exact hsmall _ (Nat.mod_lt _ (by decide))

/-! ### What a path led to -/

/-- A walk that leads to something leads there in every tree that has more. -/
theorem Walk.extend (hext : t.Extends t') (h : Walk t last n loc names r) (hr : r.2 ≠ none) :
    Walk t' last n loc names r := by
  have henters {l : Location} (hl : t.Enters l) : t'.Enters l := hl.mono hext.keepsWays
  induction h with
  | @done n loc =>
    obtain ⟨node, hnode⟩ := Option.ne_none_iff_exists'.1 hr
    rw [show t.get? loc = t'.get? loc from hnode.trans (hext.get? loc node hnode).symm]
    exact .done
  | here hloc _ ih => exact .here (henters hloc) (ih hr)
  | up hloc _ ih => exact .up (henters hloc) (ih hr)
  | free => exact absurd rfl hr
  | stop hloc hname hlink hlast => exact .stop (henters hloc) hname (hext.get? _ _ hlink) hlast
  | link hloc hname hlink hgo _ ih =>
    exact .link (henters hloc) hname (hext.get? _ _ hlink) hgo (ih hr)
  | onward hloc hname hsome hnot _ ih =>
    exact .onward (henters hloc) hname (hext.get? _ _ hsome) hnot (ih hr)

theorem node?_eq_some : t.node? p = some node ↔ ∃ l, t.resolve p true = .ok (l, some node) := by
  rw [node?]
  constructor
  · intro h
    obtain ⟨⟨l, node'⟩, hstat, rfl⟩ := Option.map_eq_some_iff.1 h
    cases hs : t.stat p with
    | error e => simp [hs, Except.toOption] at hstat
    | ok x =>
      rw [hs] at hstat
      cases hstat
      exact ⟨l, stat_eq_ok.1 hs⟩
  · rintro ⟨l, hl⟩
    rw [stat_eq_ok.2 hl]
    rfl

/-- The directories that are made for a path do not change what it leads to. -/
theorem node?_withParents (h : t.node? p = some node) : (t.withParents p).node? p = some node := by
  obtain ⟨l, hl⟩ := node?_eq_some.1 h
  obtain ⟨hpath, hwalk⟩ := resolve_eq_ok.1 hl
  have hext := (grows_withParents t p).keeps
  refine node?_eq_some.2 ⟨l, resolve_eq_ok.2 ⟨hpath, ?_⟩⟩
  rw [startOf_eq_of_cwd hext.cwd]
  exact hwalk.extend hext nofun

/-! ### The new file -/

/-- To replace a file is to rename a temporary file, and to set its mode if there was something. -/
theorem replace_ok (h : (t.replace p content).error = none) : ∃ t' tmp done,
    (t.withParents p).makeTemporary (directoryOf p) content = .ok (t', tmp) ∧
      persist t' p tmp = ⟨done, none⟩ ∧
      (((t.withParents p).node? p = none ∧ (t.replace p content).tree = done) ∨
        ∃ node last, (t.withParents p).node? p = some node ∧
          done.setMode p (permissions node.mode) = .ok last ∧
          (t.replace p content).tree = last) := by
  have hmade : (t.makeDirAll (directoryOf p)).tree = t.withParents p := rfl
  revert h
  simp only [replace, replaceWith, ReplaceOptions.default, if_true, modeFor, hmade]
  split
  · next e he =>
    intro h
    cases he.symm.trans h
  split
  · intro h
    cases h
  next t' tmp htmp =>
  generalize hdone : persist t' p tmp = done
  obtain ⟨done, error⟩ := done
  intro h
  refine ⟨t', tmp, done, htmp, ?_⟩
  -- an error of either step would be the error of the whole
  cases hnode : (t.withParents p).node? p with
  | none =>
    rw [hnode] at h
    cases error with
    | some e => cases h
    | none => exact ⟨hdone, .inl ⟨rfl, rfl⟩⟩
  | some node =>
    rw [hnode] at h
    cases error with
    | some e => cases h
    | none =>
      refine ⟨hdone, .inr ⟨node, ?_⟩⟩
      dsimp only [Option.map_some, permissions] at h ⊢
      cases hset : done.setMode p (node.mode &&& 0o7777) with
      | error e =>
        rw [hset] at h
        cases h
      | ok last => exact ⟨last, rfl, rfl, rfl⟩

/-- The way to a directory is the same as before the temporary file took its place. -/
theorem TookPlace.keepsWays {old target : Location}
    (htook : TookPlace t' content old target t'') : t''.KeepsWays t' := by
  refine ⟨htook.cwd.symm, fun l node hl hnode => ?_⟩
  rw [htook.get?] at hl
  split at hl
  · cases hl
    cases hnode
  · split at hl
    · cases hl
    · exact hl

/-- Where the path still leads to something, it names the new file and leads to it. -/
theorem TookPlace.slot_of_stat {old : Location} (htook : TookPlace t' content old (loc ++ [s]) t'')
    (hslot : t'.slot p .busy = .ok (loc, dir, s)) (hslash : endsInSlash p.text = false)
    (hstat : t''.stat p = .ok (l, node)) :
    t''.slot p .busy = .ok (loc, dir, s) ∧ l = loc ++ [s] ∧ node = .file content 0o600 := by
  obtain ⟨hparent, hlast, hshort⟩ := slot_eq_ok.1 hslot
  obtain ⟨hpath, hwalk, hisDir, hsearch⟩ := parent_eq_ok.1 hparent
  obtain ⟨-, hdot, hdots⟩ := lastOf_eq_name hlast
  obtain ⟨-, hall⟩ := resolve_eq_ok.1 (stat_eq_ok.1 hstat)
  rw [stepsOf_of_not_endsInSlash hslash, namesOf_eq_append hlast,
    ← startOf_eq_of_cwd htook.cwd.symm] at hall
  obtain ⟨l₁, hfirst, henters, k, hthen⟩ := hall.cut
  -- up to its last name the path is followed as it was before the rename
  obtain ⟨dir₁, hdir₁, hisDir₁, -⟩ := id henters
  have hway : Reached.IsWay (l₁, t''.get? l₁) := ⟨dir₁, hdir₁, isFile_eq_false_of_isDir hisDir₁⟩
  obtain ⟨rfl, hdir⟩ := Prod.mk.inj (hwalk.unique (hfirst.mono htook.keepsWays hway))
  have hfile : t''.get? (loc ++ [s]) = some (.file content 0o600) := by
    rw [htook.get?, if_pos rfl]
  have hend : Walk t'' true k loc [s] (loc ++ [s], t''.get? (loc ++ [s])) :=
    henters.walk ⟨hdot, hdots, hshort⟩ (by simp [hfile]) k
  rw [hfile] at hend
  cases hthen.unique hend
  refine ⟨slot_eq_ok.2 ⟨parent_eq_ok.2 ⟨hpath, ?_, hisDir, hsearch⟩, hlast, hshort⟩, rfl, rfl⟩
  rw [startOf_eq_of_cwd htook.cwd, hdir]
  exact hfirst

/-- A mode is only set where the path leads to the new file. -/
theorem eq_of_setMode {old : Location} (hslot : t'.slot p .busy = .ok (loc, dir, s))
    (hslash : endsInSlash p.text = false)
    (htook : TookPlace t' content old (loc ++ [s]) t'') (hset : t''.setMode p mode = .ok t) :
    t''.slot p .busy = .ok (loc, dir, s) ∧ t = t''.insert (loc ++ [s]) (.file content mode) := by
  rw [setMode] at hset
  cases hstat : t''.stat p with
  | error e =>
    rw [hstat] at hset
    cases hset
  | ok x =>
    rw [hstat] at hset
    cases hset
    obtain ⟨hslot', hl, hnode⟩ := htook.slot_of_stat hslot hslash hstat
    rw [hl, hnode]
    exact ⟨hslot', rfl⟩

/-- The path is a regular file with this content and mode, be links followed or not. -/
def IsRegular (t : FileTree) (p : Path) (content : List UInt8) (mode : Nat) : Prop :=
  ∃ l, ∀ last, t.resolve p last = .ok (l, some (.file content mode))

theorem isRegular_of_slot (hslot : t.slot p .busy = .ok (loc, dir, s))
    (hslash : endsInSlash p.text = false)
    (hfile : t.get? (loc ++ [s]) = some (.file content mode)) : t.IsRegular p content mode :=
  ⟨loc ++ [s], fun last => by rw [resolve_of_slot hslot hslash (by simp [hfile]), hfile]⟩

/-- A file in the place of a file changes no way. -/
theorem slot_insert_file {content' : List UInt8} {mode' : Nat}
    (hslot : t.slot p .busy = .ok (loc, dir, s))
    (hfile : t.get? l = some (.file content mode)) :
    (t.insert l (.file content' mode')).slot p .busy = .ok (loc, dir, s) := by
  obtain ⟨hparent, hname⟩ := slot_eq_ok.1 hslot
  refine slot_eq_ok.2 ⟨parent_mono hparent ⟨rfl, fun l' node hl' hnode => ?_⟩, hname⟩
  have hne : l' ≠ l := by
    rintro rfl
    cases hl'.symm.trans hfile
    cases hnode
  rwa [get?_insert_ne t _ hne]

/-- The mode that a path is given: the permissions of what it led to, or those of a temporary
file. -/
def modeAfter : Option Node → Nat
  | some node => permissions node.mode
  | none => temporaryMode

/-- What a path is when a file was replaced at it. -/
theorem replace_mode (hwf : t.WellFormed) (hnames : (t.withParents p).NamesNoDirectory p)
    (hpasses : (t.withParents p).node? p = none → (t.withParents p).PassesBy p)
    (hok : (t.replace p content).error = none) :
    ∃ mode, (t.replace p content).tree.IsRegular p content mode ∧
      mode = modeAfter ((t.withParents p).node? p) ∧
      (∀ node, t.node? p = some node → mode = permissions node.mode) ∧
      ((t.withParents p).node? p = none →
        (mode = t.newFileMode ↔ t.umask &&& 0o666 = 0o066)) := by
  obtain ⟨t', tmp, done, htmp, hpersist, hlate⟩ := replace_ok hok
  obtain ⟨loc, name, h⟩ := temporary_of_makeTemporary htmp
  have hwf' := (grows_withParents t p).wellFormed hwf
  rcases persist_cases h hwf' hnames with
    ⟨dir, s, t'', hslot, hslash, hdir, htook, hpersist'⟩ | ⟨e, hpersist'⟩
  · cases hpersist.symm.trans hpersist'
    have hfile : done.get? (loc ++ [s]) = some (.file content 0o600) := by
      rw [htook.get?, if_pos rfl]
    rcases hlate with ⟨hnone, htree⟩ | ⟨node, last, hnode, hset, htree⟩
    · rw [htree, hnone]
      have hslot' := (slot_of_tookPlace h hdir (hpasses hnone) hslot htook).2
      refine ⟨_, isRegular_of_slot hslot' hslash hfile, rfl, fun node hnode => ?_, fun _ => ?_⟩
      · cases hnone.symm.trans (node?_withParents hnode)
      · exact eq_comm.trans (newFileMode_eq_iff t)
    · obtain ⟨hslot', rfl⟩ := eq_of_setMode hslot hslash htook hset
      rw [htree, hnode]
      refine ⟨_, isRegular_of_slot (slot_insert_file hslot' hfile) hslash (get?_insert_self _ _ _),
        rfl, fun node' hnode' => ?_, nofun⟩
      rw [Option.some.inj (hnode.symm.trans (node?_withParents hnode'))]
  · cases hpersist.symm.trans hpersist'

/-- A link to a program that runs with the rights of its owner. -/
def withProgram : FileTree :=
  ⟨[([], .dir 0o755), (["bin"], .dir 0o755), (["bin", "tool"], .file [111] 0o4755),
    (["run"], .link "bin/tool")], [], 0o022⟩

/-- The link is replaced by a file, with the permissions of the file that it led to. -/
theorem replace_mode_withProgram : (withProgram.replace ⟨"run"⟩ [120]).error = none ∧
    (withProgram.replace ⟨"run"⟩ [120]).tree.IsRegular ⟨"run"⟩ [120] 0o4755 := by
  have hok : (withProgram.replace ⟨"run"⟩ [120]).error = none := by decide +kernel
  have hlink : (withProgram.withParents ⟨"run"⟩).resolve ⟨"run"⟩ false =
      .ok (["run"], some (.link "bin/tool")) := by decide +kernel
  have hnode : (withProgram.withParents ⟨"run"⟩).node? ⟨"run"⟩ = some (.file [111] 0o4755) := by
    decide +kernel
  obtain ⟨mode, hregular, hmode, -⟩ := replace_mode (t := withProgram)
    (wellFormed_of_entries (by decide) (by decide)) (by rw [NamesNoDirectory, hlink]; simp)
    (fun hnone => by cases hnode.symm.trans hnone) hok
  rw [hnode] at hmode
  obtain rfl : mode = 0o4755 := hmode
  exact ⟨hok, hregular⟩

/-- With the usual umask a new file does not get the mode of new files. -/
theorem replace_mode_of_new : (FileTree.empty.replace ⟨"f"⟩ [120]).error = none ∧
    FileTree.empty.node? ⟨"f"⟩ = none ∧
    (FileTree.empty.replace ⟨"f"⟩ [120]).tree.get? ["f"] = some (.file [120] 0o600) ∧
    FileTree.empty.newFileMode = 0o644 := by
  decide +kernel

end LspClient.FileTree
