import LspClient.Proofs.FileTree.Names
import LspClient.Server.Target

/-!
# The nearest marked directory

The ancestors of a path are pieces of its text. By components they are the proper beginnings of the
path, each of them once and the longer ones first (`exists_ancestor_iff`, `ancestors_ordered`), so
of two ancestors one is above the other.

A server runs in the nearest directory above the file that holds a marker, and in the session root
if there is none; where the session root is above the file, no directory above the session root
counts (`workspaceRoot_nearest`).
-/

namespace LspClient

namespace Path

/-! ### Ancestors -/

/-- The components of `d` are a proper beginning of those of `p`. -/
def Above (d p : Path) : Prop := d.components <+: p.components ∧ d.components ≠ p.components

variable {p d : Path} {first : Bool} {stop : Nat} {c : Component}

/-- The component that a path begins with if it is absolute. -/
def rootOf (p : Path) : List Component := if p.isAbsolute then [.root] else []

theorem components_eq (p : Path) : p.components = p.rootOf ++ p.body.map (·.1) := rfl

theorem bodyFrom_cons_none {s : List Char} (h : Component.ofName first s = none) (stop : Nat)
    (pieces : List (List Char × Nat)) :
    bodyFrom first ((s, stop) :: pieces) = bodyFrom false pieces := by
  simp only [bodyFrom, h]

theorem bodyFrom_cons_some {s : List Char} (h : Component.ofName first s = some c) (stop : Nat)
    (pieces : List (List Char × Nat)) :
    bodyFrom first ((s, stop) :: pieces) = (c, stop) :: bodyFrom false pieces := by
  simp only [bodyFrom, h]

/-- The piece of a text in which a component ends. -/
theorem exists_piece {pieces : List (List Char × Nat)} {before after : List (Component × Nat)}
    (h : bodyFrom first pieces = before ++ (c, stop) :: after) :
    ∃ front s back, pieces = front ++ (s, stop) :: back ∧ s ≠ [] ∧
      bodyFrom first (front ++ [(s, stop)]) = before ++ [(c, stop)] := by
  induction pieces generalizing first before with
  | nil => simp [bodyFrom] at h
  | cons x pieces ih =>
    obtain ⟨s, stop'⟩ := x
    cases hname : Component.ofName first s with
    | none =>
      rw [bodyFrom_cons_none hname] at h
      obtain ⟨front, s', back, rfl, hne, hbody⟩ := ih h
      refine ⟨(s, stop') :: front, s', back, rfl, hne, ?_⟩
      rw [List.cons_append, bodyFrom_cons_none hname, hbody]
    | some c' =>
      rw [bodyFrom_cons_some hname] at h
      cases before with
      | nil =>
        cases h
        refine ⟨[], s, pieces, rfl, ?_, bodyFrom_cons_some hname _ _⟩
        rintro rfl
        cases hname
      | cons y before =>
        obtain ⟨rfl, hrest⟩ := List.cons.inj h
        obtain ⟨front, s', back, rfl, hne, hbody⟩ := ih hrest
        refine ⟨(s, stop') :: front, s', back, rfl, hne, ?_⟩
        rw [List.cons_append, bodyFrom_cons_some hname, hbody, List.cons_append]

/-- What is left of a path reads as it did within the path. -/
theorem components_upTo (p : Path) (n : Nat) :
    (p.upTo (p.body.take n)).components = p.rootOf ++ (p.body.take n).map (·.1) := by
  rcases List.eq_nil_or_concat (p.body.take n) with hnone | ⟨before, ⟨c, stop⟩, hkept⟩
  · have hslash : (Path.mk "/").components = [.root] := by decide
    have hempty : (Path.mk "").components = [] := by decide
    rw [hnone, rootOf, upTo]
    cases p.isAbsolute
    · exact hempty
    · exact hslash
  · rw [List.concat_eq_append] at hkept
    have hbody : p.body = before ++ (c, stop) :: p.body.drop n := by
      rw [← List.singleton_append, ← List.append_assoc, ← hkept, List.take_append_drop]
    obtain ⟨front, s, back, hpieces, hne, hfront⟩ := exists_piece hbody
    obtain ⟨-, htake⟩ := pieces_take hpieces
    have hmem : (s, stop) ∈ pieces 0 [] p.chars := by simp [hpieces]
    have hhead : (p.chars.take stop).head? = p.chars.head? := FileTree.head?_take_of_mem hmem hne
    have hchars : (p.upTo (p.body.take n)).chars = p.chars.take stop := by
      simp [upTo, hkept, chars]
    generalize p.upTo (p.body.take n) = q at hchars ⊢
    have habs : q.isAbsolute = p.isAbsolute := by
      rw [isAbsolute, isAbsolute, hchars, hhead]
    have hq : q.body = p.body.take n := by
      rw [hkept, ← hfront, ← htake, Nat.sub_zero, ← hchars, ← habs, body]
    rw [components_eq, rootOf, rootOf, habs, hq]

theorem mem_ancestors : d ∈ p.ancestors ↔ ∃ n < p.body.length, p.upTo (p.body.take n) = d := by
  simp [ancestors]

theorem components_upTo_eq_take (p : Path) (n : Nat) :
    (p.upTo (p.body.take n)).components = p.components.take (p.rootOf.length + n) := by
  rw [components_upTo, components_eq, List.take_length_add_append, List.map_take]

theorem length_components (p : Path) : p.components.length = p.rootOf.length + p.body.length := by
  rw [components_eq, List.length_append, List.length_map]

/-- By components, every proper beginning of a path is one of its ancestors, apart from that without
the root. -/
theorem exists_ancestor_iff {cs : List Component} : (∃ d ∈ p.ancestors, d.components = cs) ↔
    cs <+: p.components ∧ cs ≠ p.components ∧ (p.isAbsolute = true → cs ≠ []) := by
  constructor
  · rintro ⟨d, hd, rfl⟩
    obtain ⟨n, hn, rfl⟩ := mem_ancestors.1 hd
    have hlength := length_components p
    refine ⟨?_, fun heq => ?_, fun habs hnil => ?_⟩
    · rw [components_upTo_eq_take]
      exact List.take_prefix _ _
    · have h := congrArg List.length heq
      rw [components_upTo_eq_take, List.length_take] at h
      omega
    · rw [components_upTo, rootOf, if_pos habs] at hnil
      cases hnil
  · rintro ⟨hfront, hne, hroot⟩
    have hlength := length_components p
    have hlt : cs.length < p.components.length := by
      refine Nat.lt_of_le_of_ne hfront.length_le fun h => hne ?_
      exact hfront.eq_of_length h
    have hle : p.rootOf.length ≤ cs.length := by
      unfold rootOf
      split
      · next habs => exact List.length_pos_iff.2 (hroot habs)
      · exact Nat.zero_le _
    refine ⟨_, mem_ancestors.2 ⟨cs.length - p.rootOf.length, by omega, rfl⟩, ?_⟩
    rw [components_upTo_eq_take, Nat.add_sub_cancel' hle]
    exact (List.prefix_iff_eq_take.1 hfront).symm

/-- The next ancestor is above those before it. -/
theorem ancestors_ordered (p : Path) : p.ancestors.Pairwise fun d e => e.Above d := by
  rw [ancestors, List.pairwise_map, List.pairwise_reverse]
  refine List.Pairwise.imp_of_mem ?_ (List.pairwise_lt_range)
  intro m n hm hn hlt
  rw [List.mem_range] at hn
  have hlength := length_components p
  rw [Above, components_upTo_eq_take, components_upTo_eq_take]
  refine ⟨List.take_prefix_take_left (by omega), fun heq => ?_⟩
  have h := congrArg List.length heq
  rw [List.length_take, List.length_take] at h
  omega

end Path

namespace Resolver

/-! ### Markers -/

variable {r : Resolver} {files : FileTree} {path dir d result : Path} {dirs : List Path}
  {markers : List String}

theorem holdsMarker_iff : holdsMarker files markers dir = true ↔
    ∃ marker ∈ markers, files.exists? (dir.join ⟨marker⟩) = true :=
  List.any_eq_true

theorem holdsMarker_congr {markers' : List String} (h : ∀ m, m ∈ markers' ↔ m ∈ markers)
    (dir : Path) : holdsMarker files markers' dir = holdsMarker files markers dir := by
  rw [Bool.eq_iff_iff, holdsMarker_iff, holdsMarker_iff]
  simp only [h]

/-- The directory is one of `dirs` and holds a marker. It is not above the session root, if that is
one of them, too. -/
structure Counts (r : Resolver) (files : FileTree) (markers : List String) (dirs : List Path)
    (d : Path) : Prop where
  mem : d ∈ dirs
  marked : ∃ marker ∈ markers, files.exists? (d.join ⟨marker⟩) = true
  inside : (∃ e ∈ dirs, e.Same r.root) → r.root.components <+: d.components

/-- Of the directories that count this one is the nearest, with all others above it. It is the
session root if there are none. -/
structure Nearest (r : Resolver) (counts : Path → Prop) (result : Path) : Prop where
  found : (∃ d, counts d) → counts result
  nearest : ∀ d, counts d → d = result ∨ d.Above result
  otherwise : (¬ ∃ d, counts d) → result = r.root

theorem counts_cons (hmarked : holdsMarker files markers dir = false) (hroot : ¬ dir.Same r.root) :
    r.Counts files markers (dir :: dirs) d ↔ r.Counts files markers dirs d := by
  have hsame : (∃ e ∈ dir :: dirs, e.Same r.root) ↔ ∃ e ∈ dirs, e.Same r.root := by
    simp [hroot]
  constructor
  · rintro ⟨hmem, hmarker, hinside⟩
    obtain rfl | hmem := List.mem_cons.1 hmem
    · rw [holdsMarker_iff.2 hmarker] at hmarked
      cases hmarked
    · exact ⟨hmem, hmarker, fun h => hinside (hsame.2 h)⟩
  · rintro ⟨hmem, hmarker, hinside⟩
    exact ⟨List.mem_cons_of_mem _ hmem, hmarker, fun h => hinside (hsame.1 h)⟩

/-- A search that goes up finds the nearest directory. -/
theorem nearest_nearestMarked (hdirs : dirs.Pairwise fun d e => e.Above d) :
    r.Nearest (r.Counts files markers dirs) (r.nearestMarked files markers dirs) := by
  induction dirs with
  | nil =>
    have hnone : ¬ ∃ d, r.Counts files markers [] d := fun ⟨d, hd⟩ => nomatch hd.mem
    exact ⟨fun h => absurd h hnone, fun d hd => absurd ⟨d, hd⟩ hnone, fun _ => rfl⟩
  | cons dir dirs ih =>
    obtain ⟨habove, hdirs⟩ := List.pairwise_cons.1 hdirs
    rw [nearestMarked]
    by_cases hmarked : holdsMarker files markers dir = true
    · rw [if_pos hmarked]
      have hcounts : r.Counts files markers (dir :: dirs) dir := by
        refine ⟨List.mem_cons_self, holdsMarker_iff.1 hmarked, ?_⟩
        rintro ⟨e, he, hsame⟩
        rw [← (hsame : e.components = r.root.components)]
        obtain rfl | he := List.mem_cons.1 he
        · exact List.prefix_rfl
        · exact (habove e he).1
      refine ⟨fun _ => hcounts, fun d hd => ?_, fun h => absurd ⟨dir, hcounts⟩ h⟩
      exact (List.mem_cons.1 hd.mem).imp_right (habove d)
    rw [if_neg hmarked]
    have hunmarked : holdsMarker files markers dir = false := Bool.not_eq_true _ ▸ hmarked
    by_cases hroot : dir.Same r.root
    · rw [if_pos hroot]
      -- all that is left is above the session root
      have hnone : ¬ ∃ d, r.Counts files markers (dir :: dirs) d := by
        rintro ⟨d, hmem, hmarker, hinside⟩
        have hfront := hinside ⟨dir, List.mem_cons_self, hroot⟩
        rw [← (hroot : dir.components = r.root.components)] at hfront
        obtain rfl | hmem := List.mem_cons.1 hmem
        · exact hmarked (holdsMarker_iff.2 hmarker)
        · obtain ⟨hback, hne⟩ := habove d hmem
          exact hne (hback.eq_of_length (Nat.le_antisymm hback.length_le hfront.length_le))
      exact ⟨fun h => absurd h hnone, fun d hd => absurd ⟨d, hd⟩ hnone, fun _ => rfl⟩
    · rw [if_neg hroot]
      have hsame : r.Counts files markers (dir :: dirs) = r.Counts files markers dirs := by
        funext d
        exact propext (counts_cons hunmarked hroot)
      rw [hsame]
      exact ih hdirs

/-! ### The directory of a server -/

/-- The directory is above the file and holds a marker. Where the session root is above the file,
it is the session root or below it. -/
structure Eligible (r : Resolver) (files : FileTree) (path : Path) (markers : List String)
    (d : Path) : Prop where
  ancestor : d ∈ path.ancestors
  marked : ∃ marker ∈ markers, files.exists? (d.join ⟨marker⟩) = true
  inside : r.root.Above path → r.root.components <+: d.components

theorem eligible_iff :
    r.Eligible files path markers d ↔ r.Counts files markers path.ancestors d := by
  have hroot : (r.root.Above path → r.root.components <+: d.components) ↔
      ((∃ e ∈ path.ancestors, e.Same r.root) → r.root.components <+: d.components) := by
    constructor
    · intro h hroot
      obtain ⟨hfront, hne, -⟩ := Path.exists_ancestor_iff.1 hroot
      exact h ⟨hfront, hne⟩
    · intro h habove
      by_cases hnil : r.root.components = []
      · rw [hnil]
        exact List.nil_prefix
      · exact h (Path.exists_ancestor_iff.2 ⟨habove.1, habove.2, fun _ => hnil⟩)
  exact ⟨fun h => ⟨h.ancestor, h.marked, hroot.1 h.inside⟩,
    fun h => ⟨h.mem, h.marked, hroot.2 h.inside⟩⟩

theorem nearest_workspaceRoot (r : Resolver) (files : FileTree) (path : Path)
    (markers : List String) :
    r.Nearest (r.Eligible files path markers) (r.workspaceRoot files path markers) := by
  unfold workspaceRoot
  split
  · next hempty =>
    obtain rfl := List.isEmpty_iff.1 hempty
    have hnone : ¬ ∃ d, r.Eligible files path [] d := by
      rintro ⟨d, hd⟩
      obtain ⟨_, hmem, -⟩ := hd.marked
      cases hmem
    exact ⟨fun h => absurd h hnone, fun d hd => absurd ⟨d, hd⟩ hnone, fun _ => rfl⟩
  · have hsame : r.Eligible files path markers = r.Counts files markers path.ancestors := by
      funext d
      exact propext eligible_iff
    rw [hsame]
    exact nearest_nearestMarked path.ancestors_ordered

/-- The session root is the result just if there is no directory that counts, or the nearest of them
is the session root itself. -/
theorem Nearest.same_root_iff {counts : Path → Prop} (h : r.Nearest counts result) :
    result.Same r.root ↔ (¬ ∃ d, counts d) ∨
      ∃ d, counts d ∧ d.Same r.root ∧ ∀ e, counts e → e = d ∨ e.Above d := by
  constructor
  · intro hsame
    by_cases hsome : ∃ d, counts d
    · exact .inr ⟨result, h.found hsome, hsame, h.nearest⟩
    · exact .inl hsome
  · rintro (hnone | ⟨d, hd, hsame, hnearest⟩)
    · rw [h.otherwise hnone]
      rfl
    · obtain rfl | ⟨habove, hne⟩ := hnearest result (h.found ⟨d, hd⟩)
      · exact hsame
      · obtain rfl | ⟨hbelow, -⟩ := h.nearest d hd
        · exact hsame
        · exact absurd (habove.eq_of_length
            (Nat.le_antisymm habove.length_le hbelow.length_le)) hne

theorem nearestMarked_congr {markers' : List String} (h : ∀ m, m ∈ markers' ↔ m ∈ markers) :
    r.nearestMarked files markers' dirs = r.nearestMarked files markers dirs := by
  induction dirs with
  | nil => rfl
  | cons dir dirs ih => rw [nearestMarked, nearestMarked, holdsMarker_congr h, ih]

theorem workspaceRoot_congr {markers' : List String} (h : ∀ m, m ∈ markers' ↔ m ∈ markers) :
    r.workspaceRoot files path markers' = r.workspaceRoot files path markers := by
  have hempty : markers'.isEmpty = markers.isEmpty := by
    rw [Bool.eq_iff_iff, List.isEmpty_iff, List.isEmpty_iff, List.eq_nil_iff_forall_not_mem,
      List.eq_nil_iff_forall_not_mem]
    simp only [h]
  rw [workspaceRoot, workspaceRoot, hempty, nearestMarked_congr h]

/-- A server runs in the nearest directory above the file that holds a marker, as far as the session
root goes. In what order the markers stand makes no difference. -/
theorem workspaceRoot_nearest (r : Resolver) (files : FileTree) (path : Path)
    (markers : List String) :
    r.Nearest (r.Eligible files path markers) (r.workspaceRoot files path markers) ∧
      ((r.workspaceRoot files path markers).Same r.root ↔
        (¬ ∃ d, r.Eligible files path markers d) ∨ ∃ d, r.Eligible files path markers d ∧
          d.Same r.root ∧ ∀ e, r.Eligible files path markers e → e = d ∨ e.Above d) ∧
      ∀ markers', markers'.Perm markers →
        r.workspaceRoot files path markers' = r.workspaceRoot files path markers := by
  have hnearest := nearest_workspaceRoot r files path markers
  refine ⟨hnearest, hnearest.same_root_iff, fun _ hperm => ?_⟩
  exact workspaceRoot_congr fun _ => hperm.mem_iff

/-- A package in the session root, and one in a directory below. -/
def packages : FileTree :=
  ⟨[([], .dir 0o755), (["r"], .dir 0o755), (["r", ".git"], .dir 0o755), (["r", "core"], .dir 0o755),
    (["r", "core", "Cargo.toml"], .file [] 0o644)], [], 0o022⟩

theorem workspaceRoot_nearest_packages :
    [".git", "Cargo.toml"].Perm ["Cargo.toml", ".git"] ∧
      workspaceRoot ⟨⟨"/r"⟩, [], []⟩ packages ⟨"/r/core/src/lib.rs"⟩ [".git", "Cargo.toml"] =
        ⟨"/r/core"⟩ ∧
      Eligible ⟨⟨"/r"⟩, [], []⟩ packages ⟨"/r/core/src/lib.rs"⟩ ["Cargo.toml", ".git"] ⟨"/r"⟩ ∧
      Path.Above ⟨"/r"⟩ ⟨"/r/core"⟩ := by
  obtain ⟨hnearest, -, hperm⟩ := workspaceRoot_nearest ⟨⟨"/r"⟩, [], []⟩ packages
    ⟨"/r/core/src/lib.rs"⟩ ["Cargo.toml", ".git"]
  have hswap : [".git", "Cargo.toml"].Perm ["Cargo.toml", ".git"] := .swap _ _ _
  have hroot : workspaceRoot ⟨⟨"/r"⟩, [], []⟩ packages ⟨"/r/core/src/lib.rs"⟩
      ["Cargo.toml", ".git"] = ⟨"/r/core"⟩ := by
    decide +kernel
  have heligible : Eligible ⟨⟨"/r"⟩, [], []⟩ packages ⟨"/r/core/src/lib.rs"⟩
      ["Cargo.toml", ".git"] ⟨"/r"⟩ :=
    ⟨by decide +kernel, ⟨".git", by decide, by decide +kernel⟩, fun _ => List.prefix_rfl⟩
  rw [hroot] at hnearest
  exact ⟨hswap, (hperm _ hswap).trans hroot, heligible,
    (hnearest.nearest _ heligible).resolve_left (by decide)⟩

end Resolver

end LspClient
