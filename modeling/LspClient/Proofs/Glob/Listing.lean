import LspClient.Proofs.CommandLine.ExitCodes
import LspClient.Proofs.Glob.PassingOver
import Mathlib.Data.List.Nodup
import Mathlib.Data.String.Basic

/-!
# Listing files

On a walk a directory comes before what is below it, and of two entries of a directory the one with
the smaller name comes first, with all that is below it (`Precedes`). What is below a directory is
gone through in that order (`below_ordered`), so a search finds its files in it, each of them once
(`finds_search`).

What a pattern stands for does not depend on how many files may be listed (`StandsFor`). The number
of files is counted before the list is cut (`expand_cases`).

A report on a pattern covers the first of these files, and gives the number of all of them. Its text
says how many are left out if any are, and that no files match if there are none
(`GlobReport.Tells`). The text takes a limit of at least one file: of a report without files it says
that no files match, whatever their number is. And a file that the pattern names (`NamesFile`) is
listed even when no file may be (`report_without_files`).
-/

namespace LspClient

namespace FileTree

/-! ### The order of a walk -/

/-- The entry at `a` is gone through no later than the one at `b`. -/
def Precedes (a b : Location) : Prop :=
  a <+: b ∨ ∃ (dir : Location) (x y : String) (as bs : Location),
    a = dir ++ x :: as ∧ b = dir ++ y :: bs ∧ x < y

variable {a b c : Location}

theorem before_cons {x y : String} {as bs : Location} :
    before (x :: as) (y :: bs) = true ↔ x < y ∨ (x = y ∧ before as bs = true) := by
  simp [before]

theorem before_iff_precedes : before a b = true ↔ Precedes a b := by
  constructor
  · intro h
    induction a generalizing b with
    | nil => exact .inl List.nil_prefix
    | cons x as ih =>
      cases b with
      | nil => cases h
      | cons y bs =>
        rcases before_cons.1 h with hlt | ⟨rfl, hrest⟩
        · exact .inr ⟨[], x, y, as, bs, rfl, rfl, hlt⟩
        rcases ih hrest with hfront | ⟨dir, x', y', as', bs', rfl, rfl, hlt⟩
        · exact .inl ((List.prefix_cons_inj x).2 hfront)
        · exact .inr ⟨x :: dir, x', y', as', bs', rfl, rfl, hlt⟩
  · have hsame (dir : Location) {as bs : Location} (h : before as bs = true) :
        before (dir ++ as) (dir ++ bs) = true := by
      induction dir with
      | nil => exact h
      | cons x dir ih => exact before_cons.2 (.inr ⟨rfl, ih⟩)
    rintro (⟨rest, rfl⟩ | ⟨dir, x, y, as, bs, rfl, rfl, hlt⟩)
    · have h : before (a ++ []) (a ++ rest) = true := hsame a rfl
      rwa [List.append_nil] at h
    · exact hsame dir (before_cons.2 (.inl hlt))

theorem before_trans (h : before a b = true) (h' : before b c = true) : before a c = true := by
  induction a generalizing b c with
  | nil => rfl
  | cons x as ih =>
    cases b with
    | nil => cases h
    | cons y bs =>
      cases c with
      | nil => cases h'
      | cons z cs =>
        rw [before_cons] at h h' ⊢
        rcases h with hxy | ⟨rfl, h⟩
        · rcases h' with hyz | ⟨rfl, -⟩
          · exact .inl (lt_trans hxy hyz)
          · exact .inl hxy
        · exact h'.imp_right fun ⟨heq, h'⟩ => ⟨heq, ih h h'⟩

theorem before_total (a b : Location) : before a b = true ∨ before b a = true := by
  induction a generalizing b with
  | nil => exact .inl rfl
  | cons x as ih =>
    cases b with
    | nil => exact .inr rfl
    | cons y bs =>
      rw [before_cons, before_cons]
      rcases lt_trichotomy x y with hlt | rfl | hlt
      · exact .inl (.inl hlt)
      · exact (ih bs).imp (fun h => .inr ⟨rfl, h⟩) fun h => .inr ⟨rfl, h⟩
      · exact .inr (.inl hlt)

variable {t : FileTree} {loc : Location}

theorem below_ordered (t : FileTree) (loc : Location) :
    (t.below loc).Pairwise fun a b => Precedes a.1 b.1 := by
  have hsorted : (t.below loc).Pairwise fun a b => before a.1 b.1 = true :=
    @List.pairwise_mergeSort _ (fun a b : Location × Node => before a.1 b.1)
      (fun _ _ _ => before_trans) (fun a b => Bool.or_eq_true_iff.2 (before_total a.1 b.1)) _
  exact hsorted.imp before_iff_precedes.1

theorem below_of_ordered (h : (t.entries.filterMap fun (l, n) =>
      if loc.isPrefixOf l ∧ l ≠ loc then some (l.drop loc.length, n) else none).Pairwise
      fun a b => before a.1 b.1 = true) :
    t.below loc = t.entries.filterMap fun (l, n) =>
      if loc.isPrefixOf l ∧ l ≠ loc then some (l.drop loc.length, n) else none :=
  List.mergeSort_of_pairwise h

/-- Where no place holds two entries, none is gone through twice. -/
theorem nodup_below (h : (t.entries.map (·.1)).Nodup) (loc : Location) :
    ((t.below loc).map (·.1)).Nodup := by
  have hperm : (t.below loc).Perm (t.entries.filterMap fun (l, n) =>
      if loc.isPrefixOf l ∧ l ≠ loc then some (l.drop loc.length, n) else none) :=
    List.mergeSort_perm _ _
  have hnames : (t.entries.filterMap fun (l, n) =>
      if loc.isPrefixOf l ∧ l ≠ loc then some (l.drop loc.length, n) else none).map (·.1) =
      (t.entries.map (·.1)).filterMap fun l =>
        if loc.isPrefixOf l ∧ l ≠ loc then some (l.drop loc.length) else none := by
    rw [List.map_filterMap, List.filterMap_map]
    congr 1
    funext e
    dsimp only [Function.comp]
    split <;> rfl
  rw [(hperm.map _).nodup_iff, hnames]
  refine List.Nodup.filterMap (fun l l' names hl hl' => ?_) h
  have hback {l : Location} (hl : names ∈ (if loc.isPrefixOf l ∧ l ≠ loc then
      some (l.drop loc.length) else none)) : l = loc ++ names := by
    split at hl
    · next hcond =>
      obtain ⟨rest, rfl⟩ := List.isPrefixOf_iff_prefix.1 hcond.1
      rw [List.drop_left, Option.mem_some_iff] at hl
      rw [hl]
    · cases hl
  rw [hback hl, hback hl']

end FileTree

namespace Glob

variable {t : FileTree} {root base : Path} {pattern : String} {tokens : List Token} {c : Choice}

/-! ### What a search finds -/

/-- The path of the file that `names` lead to from `base`. -/
def pathBelow (base : Path) (names : List String) : Path := base.join ⟨"/".intercalate names⟩

/-- A search below `base` comes by the file that `names` lead to, and the file matches. -/
def Meets (t : FileTree) (base : Path) (tokens : List Token) (c : Choice) (names : List String) :
    Prop :=
  ∃ loc mode content fileMode, t.stat base = .ok (loc, .dir mode) ∧
    (loc ++ names, Node.file content fileMode) ∈ t.entries ∧ names ≠ [] ∧
    c.reaches t loc names = true ∧ isMatch tokens (Utf8.encode ("/".intercalate names)) = true

/-- These are all matches below `base`, by the names that lead to them, in the order of a walk. -/
structure Finds (t : FileTree) (base : Path) (tokens : List Token) (c : Choice)
    (found : List (List String)) : Prop where
  all : ∀ names, names ∈ found ↔ Meets t base tokens c names
  ordered : found.Pairwise FileTree.Precedes
  once : (t.entries.map (·.1)).Nodup → found.Nodup

theorem finds_search (t : FileTree) (base : Path) (tokens : List Token) (c : Choice) :
    ∃ found, Finds t base tokens c found ∧
      search t base tokens c = found.map (pathBelow base) := by
  unfold search
  split
  · next loc mode hstat =>
    let matched (e : Location × Node) : Bool :=
      e.2.isFile && c.reaches t loc e.1 && isMatch tokens (Utf8.encode ("/".intercalate e.1))
    refine ⟨((t.below loc).filter matched).map (·.1), ?_, ?_⟩
    · constructor
      case all =>
        intro names
        simp only [List.mem_map, List.mem_filter, Prod.exists, exists_and_right, exists_eq_right,
          mem_below, matched, Bool.and_eq_true]
        constructor
        · rintro ⟨node, ⟨hmem, hne⟩, ⟨hfile, hreaches⟩, hmatch⟩
          cases node with
          | file content fileMode =>
            exact ⟨loc, mode, content, fileMode, hstat, hmem, hne, hreaches, hmatch⟩
          | dir => cases hfile
          | link => cases hfile
        · rintro ⟨loc', mode', content, fileMode, hstat', hmem, hne, hreaches, hmatch⟩
          obtain ⟨rfl, -⟩ : loc = loc' ∧ mode = mode' := by simpa [hstat] using hstat'
          exact ⟨_, ⟨hmem, hne⟩, ⟨rfl, hreaches⟩, hmatch⟩
      case ordered =>
        rw [List.pairwise_map]
        exact (FileTree.below_ordered t loc).filter _
      case once =>
        exact fun h => (FileTree.nodup_below h loc).sublist (List.filter_sublist.map _)
    · rw [List.map_map, ← List.filterMap_eq_filter, List.map_filterMap]
      congr 1
      funext e
      simp only [Option.guard, matched]
      split <;> rfl
  · next hother =>
    refine ⟨[], ⟨fun names => ?_, .nil, fun _ => .nil⟩, rfl⟩
    constructor
    · simp
    · rintro ⟨loc, mode, content, fileMode, hstat, -⟩
      exact absurd hstat (hother loc mode)

/-! ### What a pattern stands for -/

/-- The pattern is the path of a file, and nothing is searched for. -/
def NamesFile (t : FileTree) (root : Path) (pattern : String) : Prop :=
  hasMeta pattern.toList = false ∧ t.isFile (root.join ⟨pattern⟩) = true

/-- The files a pattern stands for, in order, and whether ignore rules were heeded. What is found
only without them counts when nothing else does. -/
inductive StandsFor (t : FileTree) (root : Path) (pattern : String) : List Path → Bool → Prop
  | file (hnamed : NamesFile t root pattern) :
      StandsFor t root pattern [root.join ⟨pattern⟩] true
  | heeding {tokens : List Token} {found : List (List String)}
      (hsearched : ¬ NamesFile t root pattern)
      (hparse : parse (split root (normalize pattern)).2 = .ok tokens)
      (hfound : Finds t (split root (normalize pattern)).1 tokens
        ⟨namesModules (normalize pattern), true⟩ found)
      (hne : found ≠ []) :
      StandsFor t root pattern (found.map (pathBelow (split root (normalize pattern)).1)) true
  | unheeding {tokens : List Token} {found : List (List String)}
      (hsearched : ¬ NamesFile t root pattern)
      (hparse : parse (split root (normalize pattern)).2 = .ok tokens)
      (hnone : Finds t (split root (normalize pattern)).1 tokens
        ⟨namesModules (normalize pattern), true⟩ [])
      (hfound : Finds t (split root (normalize pattern)).1 tokens
        ⟨namesModules (normalize pattern), false⟩ found) :
      StandsFor t root pattern (found.map (pathBelow (split root (normalize pattern)).1)) false

/-- These files were found, and `max` of them are listed. The file that a pattern `named` is not
left out. -/
structure Expansion.Lists (e : Expansion) (named : Prop) (found : List Path) (heeded : Bool)
    (max : Nat) : Prop where
  total : e.total = found.length
  ignoreRulesApplied : e.ignoreRulesApplied = heeded
  files : max ≠ 0 ∨ ¬ named → e.files = found.take max

theorem Expansion.lists_ofMatches (named : Prop) (found : List Path) (max : Nat) (heeded : Bool) :
    (Expansion.ofMatches found max heeded).Lists named found heeded max :=
  ⟨rfl, rfl, fun _ => rfl⟩

/-- How many files may be listed decides neither over what a pattern stands for nor over the number
of files that is given. -/
theorem expand_cases (t : FileTree) (root : Path) (pattern : String) :
    (∃ e, ∀ max, expand t root pattern max = .error e) ∨
      ∃ found heeded, StandsFor t root pattern found heeded ∧
        ∀ max, ∃ e, expand t root pattern max = .ok e ∧
          e.Lists (NamesFile t root pattern) found heeded max := by
  have hnames : (!hasMeta pattern.toList && t.isFile (root.join ⟨pattern⟩)) = true ↔
      NamesFile t root pattern := by
    rw [Bool.and_eq_true, Bool.not_eq_true', NamesFile]
  unfold expand
  dsimp only
  split
  · next hliteral =>
    -- the file is there at every maximum but zero
    have hnamed := hnames.1 hliteral
    refine .inr ⟨_, _, .file hnamed, fun max => ⟨_, rfl, rfl, rfl, fun hmax => ?_⟩⟩
    obtain ⟨n, rfl⟩ := Nat.exists_eq_succ_of_ne_zero (hmax.resolve_right (not_not_intro hnamed))
    rw [List.take_succ_cons, List.take_nil]
  · next hliteral =>
    have hsearched : ¬ NamesFile t root pattern := mt hnames.2 hliteral
    split
    · exact .inl ⟨_, fun _ => rfl⟩
    · next tokens hparse =>
      obtain ⟨found, hfound, heq⟩ := finds_search t (split root (normalize pattern)).1 tokens
        ⟨namesModules (normalize pattern), true⟩
      obtain ⟨unheeded, hunheeded, heq'⟩ := finds_search t (split root (normalize pattern)).1 tokens
        ⟨namesModules (normalize pattern), false⟩
      rw [heq, heq']
      cases found with
      | nil =>
        exact .inr ⟨_, _, .unheeding hsearched hparse hfound hunheeded,
          fun max => ⟨_, rfl, Expansion.lists_ofMatches _ _ _ _⟩⟩
      | cons names found =>
        exact .inr ⟨_, _, .heeding hsearched hparse hfound (List.cons_ne_nil _ _),
          fun max => ⟨_, rfl, Expansion.lists_ofMatches _ _ _ _⟩⟩

end Glob

variable {ε : Type}

/-! ### What a report tells -/

namespace GlobReport

/-- These files were found for the pattern, and the report covers the first `max` of them. The file
that a pattern `named` is not left out. -/
structure Tells (report : GlobReport) (pattern : String) (named : Prop) (found : List Path)
    (max : Nat) : Prop where
  pattern_eq : report.pattern = pattern
  total : report.total = found.length
  files : max ≠ 0 ∨ ¬ named → report.files.map FileReport.path = found.take max
  /-- Nothing is said of the number of files where all of them are shown. -/
  text : max ≠ 0 → report.render =
    if found = [] then s!"no files match {pattern}\n"
    else String.join (report.files.map FileReport.render) ++
      if max < found.length then s!"showing {max} of {found.length} files matching {pattern}\n"
      else ""

theorem tells {report : GlobReport} {pattern : String} {named : Prop} {found : List Path}
    {max : Nat} (hpattern : report.pattern = pattern) (htotal : report.total = found.length)
    (hfiles : max ≠ 0 ∨ ¬ named → report.files.map FileReport.path = found.take max) :
    report.Tells pattern named found max where
  pattern_eq := hpattern
  total := htotal
  files := hfiles
  text hmax := by
    have hlength : report.files.length = min max found.length := by
      rw [← List.length_map, hfiles (.inl hmax), List.length_take]
    by_cases hnone : found = []
    · have hempty : report.files = [] := by
        rw [← List.length_eq_zero_iff, hlength, hnone, List.length_nil, Nat.min_zero]
      rw [render, hempty, hpattern, if_pos hnone]
      rfl
    · have hpos : 0 < found.length := List.length_pos_iff.2 hnone
      have hshown : report.files.isEmpty = false := by
        rw [List.isEmpty_eq_false_iff, ← List.length_pos_iff, hlength]
        omega
      rw [render, hshown, if_neg hnone]
      simp only [Bool.false_eq_true, if_false, truncated, hpattern, htotal, hlength,
        decide_eq_true_eq]
      by_cases hcut : max < found.length
      · rw [if_pos hcut, if_pos (by omega), Nat.min_eq_left (Nat.le_of_lt hcut)]
      · rw [if_neg hcut, if_neg (by omega)]

end GlobReport

/-! ### Reports of a session -/

namespace Session

theorem paths_eq {s : Session ε} {paths : List Path} {reports : List FileReport}
    (h : List.Forall₂ (fun path r => ∃ results, s.Reports path results r) paths reports) :
    reports.map FileReport.path = paths := by
  induction h with
  | nil => rfl
  | cons hr _ ih =>
    obtain ⟨results, hr⟩ := hr
    rw [List.map_cons, ih, hr.path_eq]

/-- What a pattern stands for does not hang on the limit, and all its files are counted. The first of
them are listed, up to the limit. A report that may show a file says how many of how many are shown,
if these are not all, and that none match only if there are none. -/
theorem truncation_stated (s : Session ε) (pattern : String) :
    (∀ t root, (∃ e, ∀ max, Glob.expand t root pattern max = .error e) ∨
      ∃ found heeded, Glob.StandsFor t root pattern found heeded ∧
        ∀ max, ∃ e, Glob.expand t root pattern max = .ok e ∧
          e.Lists (Glob.NamesFile t root pattern) found heeded max) ∧
    ∀ (R : World ε → World ε → Prop) w w' limit token report,
      (s.diagnoseGlob pattern limit token).Ends R w w' (.ok report) →
        ∃ w₁ w₀ found, R w w₁ ∧ R w₁.beginJob.2 w₀ ∧
          Glob.StandsFor w₀.files s.root pattern found report.ignoreRulesApplied ∧
          report.Tells pattern (Glob.NamesFile w₀.files s.root pattern) found
            (limit.getD s.settings.maxGlobTargets) := by
  refine ⟨fun t root => Glob.expand_cases t root pattern, ?_⟩
  intro R w w' limit token report h
  obtain ⟨w₁, w₀, e, hbegun, hdone, hexpand, hpattern, htotal, hheeded, hfiles⟩ :=
    expands_of_diagnoseGlob h
  obtain ⟨_, herror⟩ | ⟨found, heeded, hstands, hlists⟩ :=
    Glob.expand_cases w₀.files s.root pattern
  · rw [herror] at hexpand
    cases hexpand
  · obtain ⟨e', hexpand', hlists⟩ := hlists (limit.getD s.settings.maxGlobTargets)
    obtain rfl : e' = e := by simpa [hexpand'] using hexpand
    refine ⟨w₁, w₀, found, hbegun, hdone, ?_, GlobReport.tells hpattern ?_ fun hlimit => ?_⟩
    · rw [hheeded, hlists.ignoreRulesApplied]
      exact hstands
    · rw [htotal, hlists.total]
    · rw [paths_eq hfiles, hlists.files hlimit]

/-! ### Two files, one of them shown -/

def twoFiles : FileTree :=
  { FileTree.empty with
    entries := FileTree.empty.entries ++
      [(["a.c"], .file [] 0o644), (["b.c"], .file [] 0o644)] }

/-- A session without servers. -/
def unserved : Session Unit where
  root := ⟨"/"⟩
  settings := Settings.default
  resolver := ⟨⟨"/"⟩, [], []⟩
  connect := fun _ _ _ => return .error .cancelled
  linters := fun _ _ => ⟨false, fun _ _ => return .ok [], fun _ text _ => return .ok text⟩

theorem expand_twoFiles (max : Nat) : Glob.expand twoFiles ⟨"/"⟩ "*.c" max =
    .ok (.ofMatches [⟨"/a.c"⟩, ⟨"/b.c"⟩] max true) := by
  have hmodules : Glob.namesModules (Glob.normalize "*.c") = false :=
    String.contains_string_eq_false_iff.2 (by decide +kernel)
  have hsplit : Glob.split ⟨"/"⟩ (Glob.normalize "*.c") = (⟨"/"⟩, "**/*.c") := by decide +kernel
  have hstat : twoFiles.stat ⟨"/"⟩ = .ok ([], .dir 0o755) := by decide +kernel
  have hbelow : twoFiles.below [] =
      [(["a.c"], .file [] 0o644), (["b.c"], .file [] 0o644)] :=
    FileTree.below_of_ordered (by decide)
  have hsearch : Glob.search twoFiles ⟨"/"⟩ [.leadingStars, .star, .literal '.', .literal 'c']
      ⟨false, true⟩ = [⟨"/a.c"⟩, ⟨"/b.c"⟩] := by
    simp only [Glob.search, hstat, hbelow]
    decide +kernel
  exact Glob.expand_of_search (by decide) hsplit rfl (by rw [hmodules]; exact hsearch)

def sameFiles (w w' : World Unit) : Prop := w'.files = w.files

def jobsTwoFiles (max : Nat) : List (Work Unit (Except Failure FileReport)) :=
  let paths : List Path := [⟨"/a.c"⟩, ⟨"/b.c"⟩].take max
  let timeout := if paths.length > 1 then unserved.settings.batchDiagnosticsTimeout
    else unserved.settings.diagnosticsTimeout
  paths.map fun path => unserved.diagnosePath path timeout Token.never

/-- The report on at most `max` of the two files, when nobody writes one meanwhile. -/
theorem ends_twoFiles (max : Nat) (files : List FileReport)
    (h : (Program.playOut endJobs 100 (endJobs (World.ofFiles twoFiles ()).beginJob.2)
      (windowed filesAtOnce (jobsTwoFiles max))).map (fun r => inOrder r.2) = some (.ok files)) :
    ∃ w', (unserved.diagnoseGlob "*.c" (some max) Token.never).Ends sameFiles
      (World.ofFiles twoFiles ()) w' (.ok ⟨"*.c", files, 2, true⟩) := by
  have hexpand : (Work.inBackground fun w : World Unit =>
      (Glob.expand w.files unserved.root "*.c" max, w)).Ends sameFiles
      (World.ofFiles twoFiles ()) (endJobs (World.ofFiles twoFiles ()).beginJob.2)
      (.ok (.ofMatches [⟨"/a.c"⟩, ⟨"/b.c"⟩] max true)) :=
    inBackground_ends _ (endJobs (World.ofFiles twoFiles ()).beginJob.2) rfl rfl (by decide)
      (congrArg (fun e => (e, endJobs (World.ofFiles twoFiles ()).beginJob.2))
        (expand_twoFiles max))
  obtain ⟨⟨w', results⟩, hend, hresults⟩ := Option.map_eq_some_iff.1 h
  have hsame (w : World Unit) : sameFiles w (endJobs w) := rfl
  refine ⟨w', Program.Ends.bind hexpand (Program.Ends.bind (Program.ends_of_playOut hsame hend) ?_)⟩
  rw [hresults]
  exact .done

/-- The first of two files is reported on, and that it is one of two is said. -/
theorem truncation_stated_twoFiles : ∃ w' report,
    (unserved.diagnoseGlob "*.c" (some 1) Token.never).Ends sameFiles
        (World.ofFiles twoFiles ()) w' (.ok report) ∧
      report.render = "/a.c: no language servers\nshowing 1 of 2 files matching *.c\n" ∧
      ∃ w₀ : World Unit, w₀.files = twoFiles ∧ ∃ found,
        Glob.StandsFor w₀.files ⟨"/"⟩ "*.c" found report.ignoreRulesApplied ∧
          report.Tells "*.c" (Glob.NamesFile w₀.files ⟨"/"⟩ "*.c") found 1 := by
  obtain ⟨w', hends⟩ := ends_twoFiles 1 [.noServers ⟨"/a.c"⟩] (by decide +kernel)
  obtain ⟨w₁, w₀, found, hbegun, hdone, hstands, htells⟩ :=
    (truncation_stated unserved "*.c").2 _ _ _ _ _ _ hends
  exact ⟨w', _, hends, by decide +kernel, w₀, hdone.trans hbegun, found, hstands, htells⟩

/-- When no file may be shown, two that match are passed off as none. A file that is named by its
path is listed all the same. -/
theorem report_without_files :
    (∃ w' report, (unserved.diagnoseGlob "*.c" (some 0) Token.never).Ends sameFiles
        (World.ofFiles twoFiles ()) w' (.ok report) ∧
      report.total = 2 ∧ report.render = "no files match *.c\n") ∧
      Glob.expand twoFiles ⟨"/"⟩ "a.c" 0 = .ok ⟨[⟨"/a.c"⟩], 1, true⟩ := by
  obtain ⟨w', hends⟩ := ends_twoFiles 0 [] (by decide +kernel)
  exact ⟨⟨w', _, hends, rfl, by decide +kernel⟩, by decide +kernel⟩

end Session

end LspClient
