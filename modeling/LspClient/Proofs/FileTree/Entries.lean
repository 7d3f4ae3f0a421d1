import LspClient.FileTree.Basic
import LspClient.Table
import Mathlib.Data.List.Induction

/-!
# The entries of a tree

What is at a location after an entry was put, erased or moved. A tree is well formed if what has
something in it is a directory; then nothing is below a file, a link, or a location that is free,
and an entry can be moved without anything else coming along (`get?_move`).

`t.Extends t'` says that `t'` has all that `t` has, and maybe more.
-/

namespace LspClient.FileTree

variable {t t' t'' : FileTree} {loc source target : Location} {node : Node} {name : String}

theorem lookup_filter_ne {l : List (Location × Node)} {k k' : Location} (h : k ≠ k') :
    (l.filter fun e => e.1 != k').lookup k = l.lookup k := by
  induction l with
  | nil => rfl
  | cons e l ih =>
    obtain ⟨k'', n⟩ := e
    by_cases hk : k'' = k'
    · subst hk
      simp [Table.lookup_cons, h, ih]
    · simp [Table.lookup_cons, hk, ih]

theorem get?_erase_ne (t : FileTree) (h : loc ≠ target) :
    (t.erase target).get? loc = t.get? loc :=
  lookup_filter_ne h

@[simp] theorem get?_erase_self (t : FileTree) (loc : Location) :
    (t.erase loc).get? loc = none := by
  rw [get?, erase, List.lookup_eq_none_iff]
  intro e he
  rw [bne_iff_ne]
  exact ((bne_iff_ne).1 (List.mem_filter.1 he).2).symm

theorem get?_insert (t : FileTree) (loc target : Location) (node : Node) :
    (t.insert target node).get? loc = if loc = target then some node else t.get? loc := by
  rw [get?, insert, Table.lookup_cons]
  split
  · rfl
  · next h => exact get?_erase_ne t h

@[simp] theorem get?_insert_self (t : FileTree) (loc : Location) (node : Node) :
    (t.insert loc node).get? loc = some node := by
  rw [get?_insert, if_pos rfl]

theorem get?_insert_ne (t : FileTree) (node : Node) (h : loc ≠ target) :
    (t.insert target node).get? loc = t.get? loc := by
  rw [get?_insert, if_neg h]

/-! ### Extensions -/

/-- The second tree has all that the first one has. -/
structure Extends (t t' : FileTree) : Prop where
  cwd : t'.cwd = t.cwd
  get? : ∀ loc node, t.get? loc = some node → t'.get? loc = some node

theorem Extends.refl (t : FileTree) : t.Extends t := ⟨rfl, fun _ _ h => h⟩

theorem Extends.trans (h : t.Extends t') (h' : t'.Extends t'') : t.Extends t'' :=
  ⟨h'.cwd.trans h.cwd, fun loc node hloc => h'.get? loc node (h.get? loc node hloc)⟩

theorem extends_insert (h : t.get? loc = none) (node : Node) : t.Extends (t.insert loc node) := by
  refine ⟨rfl, fun loc' node' hloc' => ?_⟩
  have hne : loc' ≠ loc := by
    rintro rfl
    rw [h] at hloc'
    cases hloc'
  rwa [get?_insert_ne t node hne]

/-! ### Well-formed trees -/

/-- The root is a directory, and so is what has something in it. -/
structure WellFormed (t : FileTree) : Prop where
  root : ∃ mode, t.get? [] = some (.dir mode)
  above : ∀ loc name, t.get? (loc ++ [name]) ≠ none → ∃ mode, t.get? loc = some (.dir mode)

theorem WellFormed.get?_below (h : t.WellFormed) (hdir : ∀ mode, t.get? loc ≠ some (.dir mode))
    {names : List String} (hnames : names ≠ []) : t.get? (loc ++ names) = none := by
  induction names using List.reverseRecOn with
  | nil => exact absurd rfl hnames
  | append_singleton names name ih =>
    by_contra hne
    rw [← List.append_assoc] at hne
    obtain ⟨mode, hmode⟩ := h.above _ _ hne
    by_cases hnil : names = []
    · rw [hnil, List.append_nil] at hmode
      exact hdir mode hmode
    · rw [ih hnil] at hmode
      cases hmode

/-- Above a directory there is one, and above the root there is the root. -/
theorem WellFormed.dir_dropLast (h : t.WellFormed) (hloc : t.get? loc ≠ none) :
    ∃ mode, t.get? loc.dropLast = some (.dir mode) := by
  rcases List.eq_nil_or_concat loc with rfl | ⟨init, name, rfl⟩
  · exact h.root
  · rw [List.concat_eq_append] at hloc ⊢
    rw [List.dropLast_concat]
    exact h.above _ _ hloc

theorem WellFormed.insert (h : t.WellFormed) {mode : Nat} (hdir : t.get? loc = some (.dir mode))
    (hfree : t.get? (loc ++ [name]) = none) (node : Node) :
    (t.insert (loc ++ [name]) node).WellFormed := by
  have hext := extends_insert hfree node
  obtain ⟨mode', hroot⟩ := h.root
  refine ⟨⟨mode', hext.get? _ _ hroot⟩, fun loc' name' hne => ?_⟩
  by_cases heq : loc' ++ [name'] = loc ++ [name]
  · obtain ⟨rfl, -⟩ := List.append_singleton_inj.1 heq
    exact ⟨mode, hext.get? _ _ hdir⟩
  · rw [get?_insert_ne t node heq] at hne
    obtain ⟨mode', hmode'⟩ := h.above loc' name' hne
    exact ⟨mode', hext.get? _ _ hmode'⟩

theorem exists_dir_of_any (h : (t.get? loc).any Node.isDir = true) :
    ∃ mode, t.get? loc = some (.dir mode) := by
  cases hnode : t.get? loc with
  | none => simp [hnode] at h
  | some node =>
    cases node with
    | dir mode => exact ⟨mode, rfl⟩
    | file => simp [hnode, Node.isDir] at h
    | link => simp [hnode, Node.isDir] at h

/-- Whether a tree is well formed can be seen from its entries. -/
theorem wellFormed_of_entries (hroot : (t.get? []).any Node.isDir = true)
    (h : ∀ e ∈ t.entries, (t.get? e.1.dropLast).any Node.isDir = true) : t.WellFormed := by
  refine ⟨exists_dir_of_any hroot, fun loc name hne => ?_⟩
  obtain ⟨node, hnode⟩ := Option.ne_none_iff_exists'.1 hne
  obtain ⟨l₁, l₂, hentries, -⟩ := List.lookup_eq_some_iff.1 hnode
  have hdir := h (loc ++ [name], node) (by simp [hentries])
  rw [List.dropLast_concat] at hdir
  exact exists_dir_of_any hdir

/-! ### Moving an entry -/

theorem lookup_retarget (l : List (Location × Node)) (hne : source ≠ target) (loc : Location) :
    ((l.filter fun e => e.1 != target).map fun e =>
      if e.1 = source then (target, e.2) else e).lookup loc =
      if loc = target then l.lookup source else if loc = source then none else l.lookup loc := by
  induction l with
  | nil => simp
  | cons e l ih =>
    obtain ⟨k, n⟩ := e
    rcases eq_or_ne k target with rfl | hkt
    · rcases eq_or_ne loc k with rfl | hloc
      · simp [ih, Table.lookup_cons, hne]
      · simp [ih, Table.lookup_cons, hloc]
    · rcases eq_or_ne k source with rfl | hks
      · rcases eq_or_ne loc target with rfl | hloc
        · simp [hkt]
        · rcases eq_or_ne loc k with rfl | hlk
          · simp [ih, Table.lookup_cons, hkt]
          · simp [ih, Table.lookup_cons, hkt, hloc, hlk]
      · rcases eq_or_ne loc target with rfl | hloc
        · simp [ih, Table.lookup_cons, hkt, hks, hkt.symm, hks.symm]
        · rcases eq_or_ne loc k with rfl | hlk
          · simp [hkt, hks]
          · simp [ih, Table.lookup_cons, hkt, hks, hloc, hlk]

theorem isPrefixOf_eq_of_mem {e : Location × Node} (he : e ∈ t.entries)
    (hbelow : ∀ names, names ≠ [] → t.get? (loc ++ names) = none) :
    loc.isPrefixOf e.1 = decide (e.1 = loc) := by
  rw [Bool.eq_iff_iff, List.isPrefixOf_iff_prefix, decide_eq_true_iff]
  constructor
  · rintro ⟨names, hnames⟩
    by_cases hnil : names = []
    · rw [← hnames, hnil, List.append_nil]
    · have hnone := hbelow names hnil
      rw [hnames, get?, List.lookup_eq_none_iff] at hnone
      simpa using hnone e he
  · rintro rfl
    exact List.prefix_rfl

/-- An entry with nothing below it is moved to a location with nothing below it. -/
theorem get?_move (t : FileTree) (hne : source ≠ target)
    (hsource : ∀ names, names ≠ [] → t.get? (source ++ names) = none)
    (htarget : ∀ names, names ≠ [] → t.get? (target ++ names) = none) (loc : Location) :
    (t.move source target).get? loc =
      if loc = target then t.get? source else if loc = source then none else t.get? loc := by
  have hfilter : (t.entries.filter fun e => !(target.isPrefixOf e.1)) =
      t.entries.filter fun e => e.1 != target := by
    refine List.filter_congr fun e he => ?_
    rw [isPrefixOf_eq_of_mem he htarget]
    by_cases h : e.1 = target <;> simp [h]
  have hmap : (t.move source target).entries =
      (t.entries.filter fun e => e.1 != target).map fun e =>
        if e.1 = source then (target, e.2) else e := by
    rw [move, hfilter]
    refine List.map_congr_left fun e he => ?_
    rw [isPrefixOf_eq_of_mem (List.mem_filter.1 he).1 hsource]
    by_cases h : e.1 = source <;> simp [h]
  rw [get?, hmap]
  exact lookup_retarget t.entries hne loc

end LspClient.FileTree
