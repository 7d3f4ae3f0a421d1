import LspClient.FileTree.Replace
import Mathlib.Data.List.Basic

/-!
# The names of paths

What the names of a path have to do with those of its directory (`directoryOf`), which is a piece of
its text, and with those of a path that was put together from a directory and a name. Dots between
the names are not counted (`namesOf_directoryOf`).
-/

namespace LspClient

open LspClient.Path

/-! ### Pieces of a text -/

namespace Path

theorem pieces_append_slash (offset : Nat) (acc cs ds : List Char) :
    pieces offset acc (cs ++ '/' :: ds) =
      pieces offset acc cs ++ pieces (offset + cs.length + 1) [] ds := by
  induction cs generalizing offset acc with
  | nil => simp [pieces]
  | cons c cs ih =>
    rw [List.cons_append, pieces, pieces]
    split
    · rw [ih, List.length_cons, List.cons_append]
      congr 3
      omega
    · rw [ih, List.length_cons]
      congr 2
      omega

theorem pieces_of_no_slash (offset : Nat) (acc : List Char) {cs : List Char} (h : '/' ∉ cs) :
    pieces offset acc cs = [(acc.reverse ++ cs, offset + cs.length)] := by
  induction cs generalizing offset acc with
  | nil => simp [pieces]
  | cons c cs ih =>
    rw [List.mem_cons, not_or] at h
    rw [pieces, if_neg (Ne.symm h.1), ih _ _ h.2]
    simp
    omega

/-- The pieces of a text that ends where one of its pieces does. -/
theorem pieces_take {offset stop : Nat} {acc cs s : List Char}
    {before after : List (List Char × Nat)}
    (h : pieces offset acc cs = before ++ (s, stop) :: after) :
    offset ≤ stop ∧ pieces offset acc (cs.take (stop - offset)) = before ++ [(s, stop)] := by
  induction cs generalizing offset acc before with
  | nil =>
    rw [pieces] at h
    cases before with
    | nil =>
      cases h
      simp [pieces]
    | cons => simp at h
  | cons c cs ih =>
    rw [pieces] at h
    split at h
    · next hc =>
      cases before with
      | nil =>
        cases h
        simp [pieces]
      | cons x before =>
        obtain ⟨rfl, hrest⟩ := List.cons.inj h
        obtain ⟨hle, hpieces⟩ := ih hrest
        refine ⟨by omega, ?_⟩
        rw [show stop - offset = (stop - (offset + 1)) + 1 by omega, List.take_succ_cons, pieces,
          if_pos hc, hpieces]
        rfl
    · next hc =>
      obtain ⟨hle, hpieces⟩ := ih h
      refine ⟨by omega, ?_⟩
      rw [show stop - offset = (stop - (offset + 1)) + 1 by omega, List.take_succ_cons, pieces,
        if_neg hc, hpieces]

theorem length_le_of_mem_pieces {offset stop : Nat} {acc cs s : List Char}
    (h : (s, stop) ∈ pieces offset acc cs) : s.length + offset ≤ stop + acc.length := by
  induction cs generalizing offset acc with
  | nil =>
    simp only [pieces, List.mem_singleton] at h
    cases h
    simp [Nat.add_comm]
  | cons c cs ih =>
    rw [pieces] at h
    split at h
    · rcases List.mem_cons.1 h with h | h
      · cases h
        simp [Nat.add_comm]
      · have hle := ih h
        simp at hle
        omega
    · have hle := ih h
      simp at hle
      omega

theorem exists_piece_of_acc (offset : Nat) {acc : List Char} (h : acc ≠ []) (cs : List Char) :
    ∃ s stop rest, pieces offset acc cs = (s, stop) :: rest ∧ s ≠ [] := by
  induction cs generalizing offset acc with
  | nil => exact ⟨acc.reverse, offset, [], rfl, by simpa using h⟩
  | cons c cs ih =>
    rw [pieces]
    split
    · exact ⟨acc.reverse, offset, _, rfl, by simpa using h⟩
    · exact ih (offset + 1) (List.cons_ne_nil c acc)

/-! ### Components -/

/-- The piece is a name that leads on. -/
def counts (x : List Char × Nat) : Bool := x.1 ≠ [] && x.1 ≠ ['.']

/-- The component that such a piece stands for. -/
def asComponent (x : List Char × Nat) : Component × Nat :=
  (if x.1 = ['.', '.'] then .up else .name x.1, x.2)

theorem bodyFrom_false (ps : List (List Char × Nat)) :
    bodyFrom false ps = (ps.filter counts).map asComponent := by
  induction ps with
  | nil => rfl
  | cons x ps ih =>
    obtain ⟨s, stop⟩ := x
    by_cases hnil : s = []
    · simp [bodyFrom, Component.ofName, counts, hnil, ih]
    · by_cases hdot : s = ['.']
      · simp [bodyFrom, Component.ofName, counts, hdot, ih]
      · by_cases hdots : s = ['.', '.'] <;>
          simp [bodyFrom, Component.ofName, counts, asComponent, hnil, hdot, hdots, ih]

/-- A dot that begins a relative path is a component, too. -/
theorem bodyFrom_true (ps : List (List Char × Nat)) :
    bodyFrom true ps = (ps.filter counts).map asComponent ∨
      ∃ stop after, ps = (['.'], stop) :: after ∧
        bodyFrom true ps = (.here, stop) :: (ps.filter counts).map asComponent := by
  cases ps with
  | nil => exact .inl rfl
  | cons x ps =>
    obtain ⟨s, stop⟩ := x
    by_cases hnil : s = []
    · simp [bodyFrom, Component.ofName, counts, hnil, bodyFrom_false]
    · by_cases hdot : s = ['.']
      · subst hdot
        refine .inr ⟨stop, ps, rfl, ?_⟩
        simp [bodyFrom, Component.ofName, counts, bodyFrom_false]
      · refine .inl ?_
        by_cases hdots : s = ['.', '.'] <;>
          simp [bodyFrom, Component.ofName, counts, asComponent, hnil, hdot, hdots, bodyFrom_false]

theorem unsnoc?_append {α : Type} (l : List α) (x : α) : unsnoc? (l ++ [x]) = some (l, x) := by
  induction l with
  | nil => rfl
  | cons y l ih => simp [unsnoc?, ih]

end Path

/-! ### Names -/

namespace FileTree

theorem ofList_eq_dot {s : List Char} : String.ofList s = "." ↔ s = ['.'] := by
  constructor
  · intro h
    simpa using congrArg String.toList h
  · rintro rfl
    rfl

/-- The names that are no dots, in terms of the pieces of a text. -/
theorem filter_namesOf (text : String) :
    (namesOf text).filter (· ≠ ".") =
      ((pieces 0 [] text.toList).filter counts).map fun x => String.ofList x.1 := by
  rw [namesOf, List.filter_filter, List.filter_map]
  congr 1
  refine List.filter_congr fun x _ => ?_
  simp [counts, ofList_eq_dot, Bool.and_comm]

/-- A text without names begins with a slash, if it is not empty. -/
theorem head?_of_namesOf_eq_nil {text : String} (h : namesOf text = []) (hne : text ≠ "") :
    text.toList.head? = some '/' := by
  cases hcs : text.toList with
  | nil => exact absurd (by simpa using hcs) hne
  | cons c cs =>
    by_cases hc : c = '/'
    · rw [hc, List.head?_cons]
    · obtain ⟨s, stop, rest, hp, hs⟩ := exists_piece_of_acc 1 (List.cons_ne_nil c []) cs
      rw [namesOf, hcs, pieces, if_neg hc, hp] at h
      simp [hs] at h

/-- A name behind a slash is the last one; a slash at the end makes no difference. -/
theorem namesOf_append {text rest name : String} {cs : List Char}
    (hrest : rest.toList = cs ++ '/' :: name.toList)
    (htext : text.toList = cs ∨ text.toList = cs ++ ['/']) (hslash : '/' ∉ name.toList)
    (hname : name ≠ "") : namesOf rest = namesOf text ++ [name] := by
  rw [namesOf, hrest, pieces_append_slash, pieces_of_no_slash _ _ hslash]
  rcases htext with htext | htext
  · simp [namesOf, htext, hname]
  · simp [namesOf, htext, hname, pieces_append_slash, pieces]

theorem not_isAbsolute {name : String} (hslash : '/' ∉ name.toList) :
    (Path.mk name).isAbsolute = false := by
  rw [isAbsolute, chars, beq_eq_false_iff_ne]
  exact fun h => hslash (List.mem_of_head? h)

/-- The text of a path that was put together has that of its directory in front. -/
theorem join_toList {dir : Path} {name : String} (hdir : dir.text ≠ "")
    (hslash : '/' ∉ name.toList) : ∃ cs, (dir.join ⟨name⟩).text.toList = cs ++ '/' :: name.toList ∧
      (dir.text.toList = cs ∨ dir.text.toList = cs ++ ['/']) := by
  rw [join, not_isAbsolute hslash]
  simp only [Bool.false_eq_true, if_false]
  split
  · exact ⟨dir.text.toList, by simp [String.toList_append], .inl rfl⟩
  · next hlast =>
    have hne : dir.text.toList ≠ [] := by simpa using hdir
    have hslash : dir.text.toList.getLast hne = '/' := by
      simpa [chars, List.getLast?_eq_some_getLast hne] using hlast
    refine ⟨dir.text.toList.dropLast, ?_, .inr ?_⟩
    · rw [String.toList_append, ← List.dropLast_append_getLast hne, hslash]
      simp
    · rw [← hslash, List.dropLast_append_getLast hne]

theorem namesOf_join {dir : Path} {name : String} (hdir : dir.text ≠ "")
    (hslash : '/' ∉ name.toList) (hname : name ≠ "") :
    namesOf (dir.join ⟨name⟩).text = namesOf dir.text ++ [name] := by
  obtain ⟨cs, hrest, htext⟩ := join_toList hdir hslash
  exact namesOf_append hrest htext hslash hname

theorem startOf_join (t : FileTree) {dir : Path} {name : String} (hdir : dir.text ≠ "")
    (hslash : '/' ∉ name.toList) : t.startOf (dir.join ⟨name⟩).text = t.startOf dir.text := by
  obtain ⟨cs, hrest, htext⟩ := join_toList hdir hslash
  have hne : dir.text.toList ≠ [] := by simpa using hdir
  rw [startOf, startOf, hrest]
  rcases htext with htext | htext
  · rw [htext, List.head?_append_of_ne_nil _ (htext ▸ hne)]
  · rw [htext]
    cases cs <;> simp

/-! ### Directories -/

/-- The way to a piece of a path, in the text up to where the piece ends. -/
theorem filter_namesOf_take {p : Path} {before after : List (List Char × Nat)}
    {x : List Char × Nat} (hp : pieces 0 [] p.chars = before ++ x :: after) :
    (namesOf (String.ofList (p.chars.take x.2))).filter (· ≠ ".") =
      ((before ++ [x]).filter counts).map fun y => String.ofList y.1 := by
  obtain ⟨s, stop⟩ := x
  obtain ⟨-, htake⟩ := pieces_take hp
  rw [filter_namesOf, String.toList_ofList]
  rw [Nat.sub_zero] at htake
  rw [htake]

theorem head?_take_of_mem {p : Path} {x : List Char × Nat} (hx : x ∈ pieces 0 [] p.chars)
    (hne : x.1 ≠ []) : (p.chars.take x.2).head? = p.chars.head? := by
  have hle := length_le_of_mem_pieces hx
  have hpos : 0 < x.1.length := List.length_pos_iff.2 hne
  simp only [List.length_nil, Nat.add_zero] at hle
  rw [List.head?_take, if_neg (by omega)]

theorem lastOf_eq_name {p : Path} {name : String} (h : lastOf p = .name name) :
    (namesOf p.text).getLast? = some name ∧ name ≠ "." ∧ name ≠ ".." := by
  unfold lastOf at h
  split at h
  · cases h
  · cases h
  · cases h
  · next s hdot hdots hs =>
    cases h
    exact ⟨hs, hdot, hdots⟩

theorem lastOf_of_getLast? {p : Path} {name : String} (h : (namesOf p.text).getLast? = some name)
    (hdot : name ≠ ".") (hdots : name ≠ "..") : lastOf p = .name name := by
  unfold lastOf
  rw [h]
  split
  · next h => cases h
  · next h => exact absurd (Option.some.inj h) hdot
  · next h => exact absurd (Option.some.inj h) hdots
  · next h => rw [Option.some.inj h]

theorem namesOf_eq_append {p : Path} {name : String} (h : lastOf p = .name name) :
    namesOf p.text = (namesOf p.text).dropLast ++ [name] :=
  (List.dropLast_append_getLast? name (lastOf_eq_name h).1).symm

/-- The pieces that count, for a path whose last name leads somewhere. -/
theorem exists_pieces {p : Path} {name : String} (h : lastOf p = .name name) :
    ∃ S x, (pieces 0 [] p.chars).filter counts = S ++ [x] ∧
      S.map (fun y => String.ofList y.1) = (namesOf p.text).dropLast.filter (· ≠ ".") := by
  have hnames := filter_namesOf p.text
  rw [namesOf_eq_append h, List.filter_append] at hnames
  have hname : [name].filter (· ≠ ".") = [name] := by simp [(lastOf_eq_name h).2.1]
  rw [hname] at hnames
  obtain ⟨S, xs, hS, hmap, hxs⟩ := List.map_eq_append_iff.1 hnames.symm
  obtain ⟨x, rfl, -⟩ := List.map_eq_singleton_iff.1 hxs
  exact ⟨S, x, hS, hmap⟩

theorem directoryOf_of_parent {p q : Path} (h : p.parent? = some q) :
    directoryOf p = if q.text = "" then ⟨"."⟩ else q := by
  simp [directoryOf, h]

/-- A path whose components before the last end with that of a piece. -/
theorem directoryOf_of_kept {p : Path} {kept : List (Component × Nat)} {c d : Component}
    {x : List Char × Nat} {stop : Nat} {before after : List (List Char × Nat)}
    (hbody : p.body = kept ++ [(c, x.2)] ++ [(d, stop)])
    (hp : pieces 0 [] p.chars = before ++ x :: after) (hne : x.1 ≠ []) :
    ((directoryOf p).text.toList.head? = some '/' ↔ p.text.toList.head? = some '/') ∧
      (namesOf (directoryOf p).text).filter (· ≠ ".") =
        ((before ++ [x]).filter counts).map fun y => String.ofList y.1 := by
  have hparent : p.parent? = some ⟨String.ofList (p.chars.take x.2)⟩ := by
    rw [parent?, hbody, unsnoc?_append]
    simp [upTo]
  have hmem : x ∈ pieces 0 [] p.chars := by simp [hp]
  have hhead := head?_take_of_mem hmem hne
  have htext : String.ofList (p.chars.take x.2) ≠ "" := by
    intro hempty
    have hnil : p.chars.take x.2 = [] := by simpa using congrArg String.toList hempty
    rw [hnil, List.head?_nil, eq_comm, List.head?_eq_none_iff] at hhead
    rw [hhead, pieces, List.mem_singleton] at hmem
    exact hne (by rw [hmem]; rfl)
  rw [directoryOf_of_parent hparent, if_neg htext]
  refine ⟨?_, filter_namesOf_take hp⟩
  rw [String.toList_ofList, hhead]
  rfl

/-- The directory of a path whose last name leads somewhere, by its text. -/
theorem directoryOf_eq {p : Path} {name : String} (h : lastOf p = .name name) :
    ((directoryOf p).text.toList.head? = some '/' ↔ p.text.toList.head? = some '/') ∧
      (namesOf (directoryOf p).text).filter (· ≠ ".") =
        (namesOf p.text).dropLast.filter (· ≠ ".") := by
  -- a name counts in the components unless it is empty or a dot; only a leading dot is kept
  obtain ⟨S, x, hS, hmap⟩ := exists_pieces h
  have hbody : ∃ first, p.body = first ++ S.map asComponent ++ [asComponent x] ∧
      (first = [] ∨ ∃ stop after, first = [(.here, stop)] ∧
        pieces 0 [] p.chars = (['.'], stop) :: after) := by
    rw [body]
    cases hfirst : !p.isAbsolute with
    | false => exact ⟨[], by simp [bodyFrom_false, hS], .inl rfl⟩
    | true =>
      rcases bodyFrom_true (pieces 0 [] p.chars) with heq | ⟨stop, after, hp, heq⟩
      · exact ⟨[], by simp [heq, hS], .inl rfl⟩
      · exact ⟨[(.here, stop)], by simp [heq, hS], .inr ⟨stop, after, rfl, hp⟩⟩
  obtain ⟨first, hbody, hfirst⟩ := hbody
  rw [← hmap]
  -- the directory ends behind the last component that counts, if there is one
  rcases List.eq_nil_or_concat S with rfl | ⟨S, y, rfl⟩
  · rcases hfirst with rfl | ⟨stop, after, rfl, hp⟩
    · -- nothing but a name is left of the path
      have hparent : p.parent? = some ⟨if p.isAbsolute then "/" else ""⟩ := by
        rw [parent?, hbody]
        rfl
      rw [directoryOf_of_parent hparent]
      cases habs : p.isAbsolute with
      | true => exact ⟨iff_of_true rfl (by simpa [isAbsolute, chars] using habs), rfl⟩
      | false =>
        refine ⟨iff_of_false (by decide) ?_, rfl⟩
        simpa [isAbsolute, chars] using habs
    · have hbody' : p.body = [] ++ [(.here, stop)] ++ [asComponent x] := hbody
      have hp' : pieces 0 [] p.chars = [] ++ (['.'], stop) :: after := hp
      exact directoryOf_of_kept hbody' hp' (by simp)
  · rw [List.concat_eq_append] at hS hbody ⊢
    rw [List.append_assoc] at hS
    obtain ⟨l, l', hp, rfl, hl'⟩ := List.filter_eq_append_iff.1 hS
    obtain ⟨m, m', rfl, hm, hy, -⟩ := List.filter_eq_cons_iff.1 hl'
    rw [← List.append_assoc] at hp
    have hm' : m.filter counts = [] := List.filter_eq_nil_iff.2 hm
    have hne : y.1 ≠ [] := by
      rintro hnil
      simp [counts, hnil] at hy
    have hbody' : p.body = (first ++ (l.filter counts).map asComponent) ++ [asComponent y] ++
        [asComponent x] := by simp [hbody]
    have hdir := directoryOf_of_kept hbody' hp hne
    rw [List.filter_append, List.filter_append, hm', List.append_nil,
      List.filter_cons_of_pos hy] at hdir
    exact hdir

/-- The directory of a path starts where the path does. -/
theorem startOf_directoryOf (t : FileTree) {p : Path} {name : String} (h : lastOf p = .name name) :
    t.startOf (directoryOf p).text = t.startOf p.text := by
  simp only [startOf, (directoryOf_eq h).1]

theorem directoryOf_ne_empty (p : Path) : (directoryOf p).text ≠ "" := by
  unfold directoryOf
  split
  · split
    · decide
    · assumption
  · decide

end FileTree

end LspClient
