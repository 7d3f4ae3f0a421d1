import LspClient.Proofs.FileTree.Entries
import LspClient.Proofs.FileTree.Names

/-!
# Where paths lead

`Walk t last n loc names r` says that names, followed from a location, lead to `r` with at most `n`
links on the way; it is what `followLinks` finds (`followLinks_eq_ok`). A walk only looks at
directories and links, so it leads to the same place in every tree that has these (`Walk.mono`).
Walks can be joined (`Walk.append`) and cut before their last name (`Walk.cut`), and dots in them
make no difference (`Walk.dots`).
-/

namespace LspClient.FileTree

variable {t t' : FileTree} {last : Bool} {n k : Nat} {loc l : Location} {name : String}
  {names rest : List String} {r : Reached} {node : Node}

/-- The location is that of a directory whose entries may be reached. -/
def Enters (t : FileTree) (loc : Location) : Prop :=
  ∃ dir, t.get? loc = some dir ∧ dir.isDir = true ∧ dir.searchable = true

/-- A name that leads to an entry of a directory. -/
def Proper (name : String) : Prop := name ≠ "." ∧ name ≠ ".." ∧ name.utf8ByteSize ≤ maxName

/-- Where the way goes on that a link found at `loc` shows. -/
def linkBase (loc : Location) (target : String) : Location :=
  if target.toList.head? = some '/' then [] else loc

inductive Walk (t : FileTree) (last : Bool) : Nat → Location → List String → Reached → Prop
  | done {n : Nat} {loc : Location} : Walk t last n loc [] (loc, t.get? loc)
  | here {n : Nat} {loc : Location} {rest : List String} {r : Reached} (hloc : t.Enters loc)
      (h : Walk t last n loc rest r) : Walk t last n loc ("." :: rest) r
  | up {n : Nat} {loc : Location} {rest : List String} {r : Reached} (hloc : t.Enters loc)
      (h : Walk t last n loc.dropLast rest r) : Walk t last n loc (".." :: rest) r
  | free {n : Nat} {loc : Location} {name : String} (hloc : t.Enters loc) (hname : Proper name)
      (hnone : t.get? (loc ++ [name]) = none) : Walk t last n loc [name] (loc ++ [name], none)
  | stop {n : Nat} {loc : Location} {name target : String} (hloc : t.Enters loc)
      (hname : Proper name) (hlink : t.get? (loc ++ [name]) = some (.link target))
      (hlast : last = false) : Walk t last n loc [name] (loc ++ [name], some (.link target))
  | link {n : Nat} {loc : Location} {name target : String} {rest : List String} {r : Reached}
      (hloc : t.Enters loc) (hname : Proper name)
      (hlink : t.get? (loc ++ [name]) = some (.link target)) (hgo : rest ≠ [] ∨ last = true)
      (h : Walk t last n (linkBase loc target) (stepsOf target ++ rest) r) :
      Walk t last (n + 1) loc (name :: rest) r
  | onward {n : Nat} {loc : Location} {name : String} {rest : List String} {r : Reached}
      {node : Node} (hloc : t.Enters loc) (hname : Proper name)
      (hsome : t.get? (loc ++ [name]) = some node) (hnot : ∀ target, node ≠ .link target)
      (h : Walk t last n (loc ++ [name]) rest r) : Walk t last n loc (name :: rest) r

/-! ### Walks are what is found -/

section

variable {onLink : Location → List String → Except FileError Reached}

theorem enters_of_follow (h : follow t last onLink loc (name :: rest) = .ok r) :
    t.Enters loc := by
  rw [follow] at h
  split at h
  · cases h
  · next dir hdir =>
    split at h
    · cases h
    · next hisDir =>
      split at h
      · cases h
      · next hsearch => exact ⟨dir, hdir, by simpa using hisDir, by simpa using hsearch⟩

/-- A step out of a directory that may be searched. -/
theorem follow_cons (hloc : t.Enters loc) : follow t last onLink loc (name :: rest) =
    if name = "." then follow t last onLink loc rest
    else if name = ".." then follow t last onLink loc.dropLast rest
    else if name.utf8ByteSize > maxName then .error .nameTooLong
    else match t.get? (loc ++ [name]) with
      | none => if rest = [] then .ok (loc ++ [name], none) else .error .notFound
      | some (.link target) =>
        if rest = [] ∧ !last then .ok (loc ++ [name], some (.link target))
        else onLink (linkBase loc target) (stepsOf target ++ rest)
      | some _ => follow t last onLink (loc ++ [name]) rest := by
  obtain ⟨dir, hdir, hisDir, hsearch⟩ := hloc
  rw [follow]
  simp only [hdir, hisDir, hsearch, Bool.not_true, Bool.false_eq_true, if_false]
  rfl

/-- What a link is handed on to is to find what walks of fewer links do. -/
theorem walk_of_follow
    (hon : ∀ loc names r, onLink loc names = .ok r → ∃ k, n = k + 1 ∧ Walk t last k loc names r)
    (h : follow t last onLink loc names = .ok r) : Walk t last n loc names r := by
  -- by induction on the names; where a link begins, the rest is up to `onLink`
  induction names generalizing loc with
  | nil =>
    cases h
    exact .done
  | cons name rest ih =>
    have henters := enters_of_follow h
    rw [follow_cons henters] at h
    split at h
    · next heq => exact heq ▸ .here henters (ih h)
    next hdot =>
    split at h
    · next heq => exact heq ▸ .up henters (ih h)
    next hdots =>
    split at h
    · cases h
    next hlong =>
    have hname : Proper name := ⟨hdot, hdots, Nat.le_of_not_lt hlong⟩
    split at h
    · next hnone =>
      split at h
      · next hnil =>
        subst hnil
        cases h
        exact .free henters hname hnone
      · cases h
    · next target hlink =>
      split at h
      · next hstop =>
        obtain ⟨rfl, hlast⟩ := hstop
        cases h
        exact .stop henters hname hlink (by simpa using hlast)
      · next hgo =>
        obtain ⟨k, rfl, hwalk⟩ := hon _ _ _ h
        refine .link henters hname hlink ?_ hwalk
        by_cases hnil : rest = []
        · exact .inr (by simpa [hnil] using hgo)
        · exact .inl hnil
    · next node hnot hsome =>
      exact .onward henters hname hsome (fun target heq => hnot target heq) (ih h)

theorem Walk.enters (h : Walk t last n loc (name :: rest) r) : t.Enters loc := by
  cases h <;> assumption

theorem follow_of_walk
    (hon : ∀ k loc names r, n = k + 1 → Walk t last k loc names r → onLink loc names = .ok r)
    (h : Walk t last n loc names r) : follow t last onLink loc names = .ok r := by
  induction names generalizing loc with
  | nil =>
    cases h
    rfl
  | cons name rest ih =>
    rw [follow_cons h.enters]
    cases h with
    | here _ h => simpa using ih h
    | up _ h => simpa using ih h
    | free _ hname hnone => simp [hname.1, hname.2.1, Nat.not_lt.2 hname.2.2, hnone]
    | stop _ hname hlink hlast =>
      simp [hname.1, hname.2.1, Nat.not_lt.2 hname.2.2, hlink, hlast]
    | link _ hname hlink hgo h =>
      have hnot : ¬ (rest = [] ∧ (!last) = true) := by
        rintro ⟨hnil, hlast⟩
        rcases hgo with hgo | hgo
        · exact hgo hnil
        · simp [hgo] at hlast
      simp only [hname.1, hname.2.1, Nat.not_lt.2 hname.2.2, if_false, hlink, hnot]
      exact hon _ _ _ _ rfl h
    | @onward _ _ _ _ _ node _ hname hsome hnot h =>
      simp only [hname.1, hname.2.1, Nat.not_lt.2 hname.2.2, if_false, hsome]
      cases node with
      | link target => exact absurd rfl (hnot target)
      | file => exact ih h
      | dir => exact ih h

end

theorem followLinks_eq_ok :
    followLinks t last n loc names = .ok r ↔ Walk t last n loc names r := by
  induction n generalizing loc names r with
  | zero =>
    constructor
    · exact fun h => walk_of_follow (fun _ _ _ h => by cases h) h
    · exact fun h => follow_of_walk (fun k _ _ _ hk => by cases hk) h
  | succ n ih =>
    constructor
    · exact fun h => walk_of_follow (fun loc names r h => ⟨n, rfl, ih.1 h⟩) h
    · refine fun h => follow_of_walk (fun k loc names r hk h => ?_) h
      cases hk
      exact ih.2 h

/-! ### Walks in other trees -/

/-- The second tree has the directories and links of the first one. -/
structure KeepsWays (t t' : FileTree) : Prop where
  cwd : t'.cwd = t.cwd
  get? : ∀ loc node, t.get? loc = some node → node.isFile = false → t'.get? loc = some node

theorem Extends.keepsWays (h : t.Extends t') : t.KeepsWays t' :=
  ⟨h.cwd, fun loc node hloc _ => h.get? loc node hloc⟩

theorem isFile_eq_false_of_isDir {node : Node} (h : node.isDir = true) : node.isFile = false := by
  cases node <;> simp_all [Node.isDir, Node.isFile]

theorem Enters.mono (h : t.Enters loc) (hkeep : t.KeepsWays t') : t'.Enters loc := by
  obtain ⟨dir, hdir, hisDir, hsearch⟩ := h
  exact ⟨dir, hkeep.get? loc dir hdir (isFile_eq_false_of_isDir hisDir), hisDir, hsearch⟩

/-- The walk does not end at a file, nor at a location that is free. -/
def Reached.IsWay (r : Reached) : Prop := ∃ node, r.2 = some node ∧ node.isFile = false

/-- No walk that goes on from a file leads anywhere else. -/
theorem Walk.isFile_eq_false (h : Walk t last n loc names r) (hr : Reached.IsWay r)
    (hloc : t.get? loc = some node) : node.isFile = false := by
  cases names with
  | nil =>
    obtain ⟨node', hnode', hfile⟩ := hr
    cases h
    obtain rfl : node = node' := Option.some.inj (hloc.symm.trans hnode')
    exact hfile
  | cons name rest =>
    obtain ⟨dir, hdir, hisDir, -⟩ := h.enters
    obtain rfl : node = dir := Option.some.inj (hloc.symm.trans hdir)
    exact isFile_eq_false_of_isDir hisDir

/-- A walk to a directory or a link looks at nothing but directories and links. -/
theorem Walk.mono (hkeep : t.KeepsWays t') (h : Walk t last n loc names r)
    (hr : Reached.IsWay r) : Walk t' last n loc names r := by
  induction h with
  | @done n loc =>
    obtain ⟨node, hnode, hfile⟩ := hr
    rw [show t.get? loc = t'.get? loc from hnode.trans (hkeep.get? loc node hnode hfile).symm]
    exact .done
  | here hloc _ ih => exact .here (hloc.mono hkeep) (ih hr)
  | up hloc _ ih => exact .up (hloc.mono hkeep) (ih hr)
  | free =>
    obtain ⟨_, hnode, -⟩ := hr
    cases hnode
  | stop hloc hname hlink hlast =>
    exact .stop (hloc.mono hkeep) hname (hkeep.get? _ _ hlink rfl) hlast
  | link hloc hname hlink hgo _ ih =>
    exact .link (hloc.mono hkeep) hname (hkeep.get? _ _ hlink rfl) hgo (ih hr)
  | onward hloc hname hsome hnot h ih =>
    have hfile := h.isFile_eq_false hr hsome
    exact .onward (hloc.mono hkeep) hname (hkeep.get? _ _ hsome hfile) hnot (ih hr)

/-- What a walk leads to is there. -/
theorem Walk.get?_eq (h : Walk t last n loc names r) : t.get? r.1 = r.2 := by
  induction h with
  | done => rfl
  | free _ _ hnone => exact hnone
  | stop _ _ hlink => exact hlink
  | here _ _ ih => exact ih
  | up _ _ ih => exact ih
  | link _ _ _ _ _ ih => exact ih
  | onward _ _ _ _ _ ih => exact ih

theorem Walk.unique {r' : Reached} (h : Walk t last n loc names r)
    (h' : Walk t last n loc names r') : r = r' := by
  rw [← followLinks_eq_ok] at h h'
  exact Except.ok.inj (h.symm.trans h')

/-! ### Joining and cutting walks -/

/-- With a link at the end followed, a walk goes on from where it led. -/
theorem Walk.append {r' : Reached} (h : Walk t true n loc names r) (hr : r.2 ≠ none)
    (hrest : rest ≠ []) (h' : ∀ n, Walk t last n r.1 rest r') :
    Walk t last n loc (names ++ rest) r' := by
  induction h with
  | done => exact h' _
  | here hloc _ ih => exact .here hloc (ih hr h')
  | up hloc _ ih => exact .up hloc (ih hr h')
  | free => exact absurd rfl hr
  | stop _ _ _ hlast => cases hlast
  | @link n loc name target rest' r hloc hname hlink _ _ ih =>
    have hnext := ih hr h'
    rw [List.append_assoc] at hnext
    exact .link hloc hname hlink (.inl (by simp [hrest])) hnext
  | onward hloc hname hsome hnot _ ih => exact .onward hloc hname hsome hnot (ih hr h')

/-- A walk, cut before its last name: it goes through a directory. -/
theorem Walk.cut (h : Walk t last n loc (names ++ [name]) r) :
    ∃ l, Walk t true n loc names (l, t.get? l) ∧ t.Enters l ∧ ∃ k, Walk t last k l [name] r := by
  generalize hall : names ++ [name] = all at h
  -- by induction on the walk: the last name is this step's or comes later
  induction h generalizing names with
  | done => simp at hall
  | @here n loc rest r hloc h ih =>
    cases names with
    | nil =>
      obtain ⟨rfl, rfl⟩ := List.cons.inj hall
      exact ⟨loc, .done, hloc, n, .here hloc h⟩
    | cons x names =>
      obtain ⟨rfl, rfl⟩ := List.cons.inj hall
      obtain ⟨l, hl, henters, hlast⟩ := ih rfl
      exact ⟨l, .here hloc hl, henters, hlast⟩
  | @up n loc rest r hloc h ih =>
    cases names with
    | nil =>
      obtain ⟨rfl, rfl⟩ := List.cons.inj hall
      exact ⟨loc, .done, hloc, n, .up hloc h⟩
    | cons x names =>
      obtain ⟨rfl, rfl⟩ := List.cons.inj hall
      obtain ⟨l, hl, henters, hlast⟩ := ih rfl
      exact ⟨l, .up hloc hl, henters, hlast⟩
  | @free n loc name' hloc hname hnone =>
    obtain ⟨rfl, rfl⟩ := List.append_singleton_inj.1 (hall.trans (List.nil_append _).symm)
    exact ⟨loc, .done, hloc, n, .free hloc hname hnone⟩
  | @stop n loc name' target hloc hname hlink hlast =>
    obtain ⟨rfl, rfl⟩ := List.append_singleton_inj.1 (hall.trans (List.nil_append _).symm)
    exact ⟨loc, .done, hloc, n, .stop hloc hname hlink hlast⟩
  | @link n loc name' target rest r hloc hname hlink hgo h ih =>
    cases names with
    | nil =>
      obtain ⟨rfl, rfl⟩ := List.cons.inj hall
      exact ⟨loc, .done, hloc, n + 1, .link hloc hname hlink hgo h⟩
    | cons x names =>
      obtain ⟨rfl, rfl⟩ := List.cons.inj hall
      obtain ⟨l, hl, henters, hlast⟩ := ih (List.append_assoc ..)
      exact ⟨l, .link hloc hname hlink (.inr rfl) hl, henters, hlast⟩
  | @onward n loc name' rest r node hloc hname hsome hnot h ih =>
    cases names with
    | nil =>
      obtain ⟨rfl, rfl⟩ := List.cons.inj hall
      exact ⟨loc, .done, hloc, n, .onward hloc hname hsome hnot h⟩
    | cons x names =>
      obtain ⟨rfl, rfl⟩ := List.cons.inj hall
      obtain ⟨l, hl, henters, hlast⟩ := ih rfl
      exact ⟨l, .onward hloc hname hsome hnot hl, henters, hlast⟩

/-- Where a directory that may be searched is left by one name, be there something or not. -/
theorem Enters.walk (hloc : t.Enters loc) (hname : Proper name)
    (hlink : last = true → ∀ target, t.get? (loc ++ [name]) ≠ some (.link target)) (n : Nat) :
    Walk t last n loc [name] (loc ++ [name], t.get? (loc ++ [name])) := by
  cases hnode : t.get? (loc ++ [name]) with
  | none => exact .free hloc hname hnode
  | some node =>
    cases node with
    | link target =>
      refine .stop hloc hname hnode ?_
      by_contra hlast
      exact hlink (by simpa using hlast) target hnode
    | file =>
      rw [← hnode]
      exact .onward hloc hname hnode nofun .done
    | dir =>
      rw [← hnode]
      exact .onward hloc hname hnode nofun .done

theorem Walk.proper (h : Walk t last n loc [name] r) (hdot : name ≠ ".") (hdots : name ≠ "..") :
    Proper name := by
  cases h with
  | here => exact absurd rfl hdot
  | up => exact absurd rfl hdots
  | _ => assumption

/-! ### Dots -/

theorem Enters.dots (hloc : t.Enters loc) {dots : List String} (hdots : ∀ d ∈ dots, d = ".")
    (h : Walk t last n loc names r) : Walk t last n loc (dots ++ names) r := by
  induction dots with
  | nil => exact h
  | cons d dots ih =>
    obtain rfl := hdots d (List.mem_cons_self ..)
    exact .here hloc (ih fun d hd => hdots d (List.mem_cons_of_mem _ hd))

/-- A walk to a directory that may be searched, with other dots. -/
theorem Walk.dots {names' : List String} (h : Walk t true n loc names r) (hr : t.Enters r.1)
    (hsame : names'.filter (· ≠ ".") = names.filter (· ≠ ".")) : Walk t true n loc names' r := by
  -- what comes before the first name that is no dot stays where it is
  have hcons {n : Nat} {loc : Location} {name : String} {rest names' : List String} {r : Reached}
      (hloc : t.Enters loc) (hname : Proper name ∨ name = "..")
      (hsame : names'.filter (· ≠ ".") = (name :: rest).filter (· ≠ "."))
      (h : ∀ rest', rest'.filter (· ≠ ".") = rest.filter (· ≠ ".") →
        Walk t true n loc (name :: rest') r) : Walk t true n loc names' r := by
    have hdot : name ≠ "." := by
      rcases hname with hname | rfl
      · exact hname.1
      · decide
    rw [List.filter_cons_of_pos (by simpa using hdot)] at hsame
    obtain ⟨dots, rest', rfl, hdots, -, hrest⟩ := List.filter_eq_cons_iff.1 hsame
    exact hloc.dots (fun d hd => by simpa using hdots d hd) (h rest' hrest)
  induction h generalizing names' with
  | done =>
    have hdots : ∀ d ∈ names', d = "." := by simpa using hsame
    simpa using hr.dots hdots .done
  | here _ _ ih => exact ih hr (by simpa using hsame)
  | up hloc _ ih => exact hcons hloc (.inr rfl) hsame fun rest' hrest => .up hloc (ih hr hrest)
  | free hloc hname hnone =>
    obtain ⟨dir, hdir, -⟩ := hr
    rw [hnone] at hdir
    cases hdir
  | stop _ _ _ hlast => cases hlast
  | link hloc hname hlink hgo _ ih =>
    refine hcons hloc (.inl hname) hsame fun rest' hrest => ?_
    refine .link hloc hname hlink (.inr rfl) (ih hr ?_)
    rw [List.filter_append, List.filter_append, hrest]
  | onward hloc hname hsome hnot _ ih =>
    exact hcons hloc (.inl hname) hsame fun rest' hrest =>
      .onward hloc hname hsome hnot (ih hr hrest)

/-- A way that ends with a dot or two leads to a directory, whether links are followed or not. -/
theorem Walk.dir_of_dots (hwf : t.WellFormed) (h : Walk t last n loc (names ++ [name]) r)
    (hname : name = "." ∨ name = "..") (last' : Bool) :
    ∃ l mode, Walk t last' n loc (names ++ [name]) (l, some (.dir mode)) := by
  obtain ⟨l, hl, henters, -⟩ := h.cut
  obtain ⟨dir, hdir, hisDir, -⟩ := id henters
  have hne : t.get? l ≠ none := by simp [hdir]
  rcases hname with rfl | rfl
  · have hend : Walk t last' n loc (names ++ ["."]) (l, t.get? l) :=
      hl.append hne (by simp) fun n => .here henters .done
    cases dir with
    | dir mode => exact ⟨l, mode, hdir ▸ hend⟩
    | file => cases hisDir
    | link => cases hisDir
  · obtain ⟨mode, hmode⟩ := hwf.dir_dropLast hne
    have hend : Walk t last' n loc (names ++ [".."]) (l.dropLast, t.get? l.dropLast) :=
      hl.append hne (by simp) fun n => .up henters .done
    exact ⟨l.dropLast, mode, hmode ▸ hend⟩

/-! ### What a path leads to -/

section

variable {p : Path} {e : FileError} {dir : Node} {target : Location}

/-- A path that can be followed at all. -/
def Followable (p : Path) : Prop := '\x00' ∉ p.text.toList ∧ p.text ≠ ""

theorem resolve_eq_ok : t.resolve p last = .ok r ↔
    Followable p ∧ Walk t last maxLinks (t.startOf p.text) (stepsOf p.text) r := by
  rw [resolve, ← followLinks_eq_ok]
  split
  · next h => exact iff_of_false nofun fun hp => hp.1.1 (by simpa using h)
  · next h =>
    split
    · next h' => exact iff_of_false nofun fun hp => hp.1.2 h'
    · next h' => exact (and_iff_right ⟨by simpa using h, h'⟩).symm

theorem stat_eq_ok : t.stat p = .ok (loc, node) ↔ t.resolve p true = .ok (loc, some node) := by
  unfold stat
  split
  · next h => simp [h]
  · next h => simp [h]
  · next h => simp [h]

theorem exists?_iff : t.exists? p = true ↔ ∃ loc node, t.resolve p true = .ok (loc, some node) := by
  rw [exists?, node?]
  cases h : t.stat p with
  | error e =>
    refine iff_of_false (by simp [Except.toOption]) ?_
    rintro ⟨loc, node, hr⟩
    rw [← stat_eq_ok, h] at hr
    cases hr
  | ok x => exact iff_of_true rfl ⟨x.1, x.2, stat_eq_ok.1 h⟩

theorem parent_eq_ok : t.parent p = .ok (loc, dir) ↔ Followable p ∧
    Walk t true maxLinks (t.startOf p.text) (namesOf p.text).dropLast (loc, some dir) ∧
      dir.isDir = true ∧ dir.searchable = true := by
  rw [parent, ← followLinks_eq_ok]
  split
  · next h => exact iff_of_false nofun fun hp => hp.1.1 (by simpa using h)
  · next h =>
    split
    · next h' => exact iff_of_false nofun fun hp => hp.1.2 h'
    · next h' =>
      have hpath : Followable p := ⟨by simpa using h, h'⟩
      rw [and_iff_right hpath]
      split
      · next hwalk => simp [hwalk]
      · next hwalk => simp [hwalk]
      · next loc' node hwalk =>
        rw [hwalk]
        split
        · next hdir =>
          refine iff_of_false nofun ?_
          rintro ⟨heq, hisDir, -⟩
          cases heq
          simp [hisDir] at hdir
        · next hdir =>
          split
          · next hsearch =>
            refine iff_of_false nofun ?_
            rintro ⟨heq, -, hsearchable⟩
            cases heq
            simp [hsearchable] at hsearch
          · next hsearch =>
            constructor
            · intro heq
              cases heq
              exact ⟨rfl, by simpa using hdir, by simpa using hsearch⟩
            · rintro ⟨heq, -⟩
              cases heq
              rfl

theorem slot_eq_ok : t.slot p e = .ok (loc, dir, name) ↔
    t.parent p = .ok (loc, dir) ∧ lastOf p = .name name ∧ name.utf8ByteSize ≤ maxName := by
  unfold slot
  cases hparent : t.parent p with
  | error e' => exact iff_of_false nofun (by rintro ⟨h, -⟩; cases h)
  | ok x =>
    simp only [bind, Except.bind]
    split
    · next s hs =>
      rw [hs]
      split
      · next hlong =>
        refine iff_of_false nofun ?_
        rintro ⟨-, heq, hle⟩
        cases heq
        exact absurd hle (Nat.not_le.2 hlong)
      · next hle =>
        constructor
        · intro heq
          cases heq
          exact ⟨rfl, rfl, Nat.le_of_not_lt hle⟩
        · rintro ⟨heq, hname, -⟩
          cases heq
          cases hname
          rfl
    · next hnot => exact iff_of_false nofun fun h => hnot name h.2.1

/-- The path names the entry at a location, be there something or not. -/
def Names (t : FileTree) (p : Path) (target : Location) : Prop :=
  ∃ loc dir name, t.slot p .busy = .ok (loc, dir, name) ∧ target = loc ++ [name]

theorem enters_of_parent (h : t.parent p = .ok (loc, dir)) : t.Enters loc := by
  obtain ⟨-, hwalk, hisDir, hsearch⟩ := parent_eq_ok.1 h
  exact ⟨dir, hwalk.get?_eq, hisDir, hsearch⟩

theorem startOf_eq_of_cwd (h : t'.cwd = t.cwd) (text : String) :
    t'.startOf text = t.startOf text := by
  rw [startOf, startOf, h]

theorem parent_mono (h : t.parent p = .ok (loc, dir)) (hkeep : t.KeepsWays t') :
    t'.parent p = .ok (loc, dir) := by
  obtain ⟨hpath, hwalk, hisDir, hsearch⟩ := parent_eq_ok.1 h
  refine parent_eq_ok.2 ⟨hpath, ?_, hisDir, hsearch⟩
  rw [startOf_eq_of_cwd hkeep.cwd]
  exact hwalk.mono hkeep ⟨dir, rfl, isFile_eq_false_of_isDir hisDir⟩

theorem Names.mono (h : t.Names p target) (hkeep : t.KeepsWays t') : t'.Names p target := by
  obtain ⟨loc, dir, name, hslot, rfl⟩ := h
  obtain ⟨hparent, hname⟩ := slot_eq_ok.1 hslot
  exact ⟨loc, dir, name, slot_eq_ok.2 ⟨parent_mono hparent hkeep, hname⟩, rfl⟩

theorem resolve_mono {node : Node} (h : t.resolve p last = .ok (loc, some node))
    (hnode : node.isFile = false) (hkeep : t.KeepsWays t') :
    t'.resolve p last = .ok (loc, some node) := by
  obtain ⟨hpath, hwalk⟩ := resolve_eq_ok.1 h
  refine resolve_eq_ok.2 ⟨hpath, ?_⟩
  rw [startOf_eq_of_cwd hkeep.cwd]
  exact hwalk.mono hkeep ⟨node, rfl, hnode⟩

theorem stepsOf_of_not_endsInSlash {text : String} (h : endsInSlash text = false) :
    stepsOf text = namesOf text := by
  simp [stepsOf, h]

/-- What an entry that a path names is to one who follows the path. -/
theorem resolve_of_slot (hslot : t.slot p e = .ok (loc, dir, name))
    (hslash : endsInSlash p.text = false)
    (hlink : last = true → ∀ s, t.get? (loc ++ [name]) ≠ some (.link s)) :
    t.resolve p last = .ok (loc ++ [name], t.get? (loc ++ [name])) := by
  obtain ⟨hparent, hlast, hle⟩ := slot_eq_ok.1 hslot
  obtain ⟨hpath, hwalk, -⟩ := parent_eq_ok.1 hparent
  obtain ⟨hget, hdot, hdots⟩ := lastOf_eq_name hlast
  refine resolve_eq_ok.2 ⟨hpath, ?_⟩
  rw [stepsOf_of_not_endsInSlash hslash, namesOf_eq_append hlast]
  exact hwalk.append (by simp) (by simp)
    ((enters_of_parent hparent).walk ⟨hdot, hdots, hle⟩ hlink)

/-- A path that leads to something names an entry, unless it leads to a directory by itself. -/
theorem slot_of_exists? (hwf : t.WellFormed) (hp : t.exists? p = true)
    (hdir : ∀ l mode, t.resolve p false ≠ .ok (l, some (.dir mode))) (e : FileError) :
    endsInSlash p.text = false ∧ ∃ loc dir name, t.slot p e = .ok (loc, dir, name) := by
  obtain ⟨l, node, hresolve⟩ := exists?_iff.1 hp
  obtain ⟨hpath, hwalk⟩ := resolve_eq_ok.1 hresolve
  have hdots {names : List String} {d : String} (hsteps : stepsOf p.text = names ++ [d])
      (hd : d = "." ∨ d = "..") : False := by
    rw [hsteps] at hwalk
    obtain ⟨l', mode, hwalk'⟩ := hwalk.dir_of_dots hwf hd false
    exact hdir l' mode (resolve_eq_ok.2 ⟨hpath, hsteps ▸ hwalk'⟩)
  rcases List.eq_nil_or_concat (namesOf p.text) with hnil | ⟨init, s, hinit⟩
  · -- nothing but slashes: the path leads to the root
    have hsteps : stepsOf p.text = [] := by simp [stepsOf, hnil]
    have hstart : t.startOf p.text = [] := by
      simp [startOf, head?_of_namesOf_eq_nil hnil hpath.2]
    obtain ⟨mode, hmode⟩ := hwf.root
    refine absurd (resolve_eq_ok.2 ⟨hpath, ?_⟩) (hdir [] mode)
    rw [hsteps, hstart, ← hmode]
    exact .done
  · rw [List.concat_eq_append] at hinit
    have hslash : endsInSlash p.text = false := by
      by_contra hslash
      have hsteps : stepsOf p.text = namesOf p.text ++ ["."] := by
        rw [stepsOf, if_pos ⟨by simpa using hslash, by simp [hinit]⟩]
      exact hdots hsteps (.inl rfl)
    rw [stepsOf_of_not_endsInSlash hslash, hinit] at hwalk hdots
    have hdot : s ≠ "." := fun hs => hdots rfl (.inl hs)
    have hdots' : s ≠ ".." := fun hs => hdots rfl (.inr hs)
    obtain ⟨l', hl', henters, k, hlast⟩ := hwalk.cut
    have hname : lastOf p = .name s := lastOf_of_getLast? (by simp [hinit]) hdot hdots'
    obtain ⟨dir, hdir', hisDir, hsearch⟩ := henters
    refine ⟨hslash, l', dir, s, slot_eq_ok.2 ⟨parent_eq_ok.2 ⟨hpath, ?_, hisDir, hsearch⟩, hname,
      (hlast.proper hdot hdots').2.2⟩⟩
    rw [hinit, List.dropLast_concat, ← hdir']
    exact hl'

end

end LspClient.FileTree
