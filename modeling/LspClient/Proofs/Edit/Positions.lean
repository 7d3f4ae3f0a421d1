import LspClient.Proofs.Edit.Splices
import Mathlib.Data.List.TakeWhile

/-!
# Positions and the offsets they stand for

A text has three measures: characters, bytes and UTF-16 units. A position counts lines and units,
and `offsetAt` turns it into bytes. Which line is meant is said by `IsLine`, in terms of the text
alone; how far along it, by `Covers`: as short a beginning of the line as has enough units, or all
of it. From these two follow that positions in order stand for offsets in order (`offsetAt_mono`),
and that the position of a place in the text leads back there, unless the place is behind a
carriage return that ends its line (`offsetAt_positionAfter`).

Edits are made by copying slices of the text, which have to begin and to end at boundaries.
`copySlices?` copies nothing else; it always succeeds (`copySlices?_eq`).
-/

namespace LspClient

variable {text above content ending below above' content' ending' below' before before' after line
  rest : List Char} {number number' column column' : Nat} {p q : Position}

/-! ### Lengths in UTF-16 units -/

def utf16Length : List Char → Nat
  | [] => 0
  | c :: cs => (utf16Width c).toNat + utf16Length cs

@[simp] theorem utf16Length_nil : utf16Length [] = 0 := rfl

@[simp] theorem utf16Length_cons (c : Char) (cs : List Char) :
    utf16Length (c :: cs) = (utf16Width c).toNat + utf16Length cs := rfl

@[simp] theorem utf16Length_append (a b : List Char) :
    utf16Length (a ++ b) = utf16Length a + utf16Length b := by
  induction a with
  | nil => simp
  | cons c a ih => rw [List.cons_append, utf16Length_cons, utf16Length_cons, ih, Nat.add_assoc]

theorem utf16Width_pos (c : Char) : 0 < (utf16Width c).toNat := by
  unfold utf16Width
  split <;> decide

theorem length_le_utf16Length (cs : List Char) : cs.length ≤ utf16Length cs := by
  induction cs with
  | nil => exact Nat.le_refl _
  | cons c cs ih =>
    have hpos := utf16Width_pos c
    rw [List.length_cons, utf16Length_cons]
    omega

theorem utf16Length_le (h : before <+: content) : utf16Length before ≤ utf16Length content := by
  obtain ⟨after, rfl⟩ := h
  simp

theorem byteLength_le (h : before <+: content) : byteLength before ≤ byteLength content := by
  obtain ⟨after, rfl⟩ := h
  simp

/-- Of two beginnings of a text the one with fewer units is the shorter one. -/
theorem eq_of_utf16Length_le (h : before <+: content)
    (hle : utf16Length content ≤ utf16Length before) : before = content := by
  obtain ⟨after, rfl⟩ := h
  rw [utf16Length_append] at hle
  have hafter := length_le_utf16Length after
  obtain rfl : after = [] := List.length_eq_zero_iff.1 (by omega)
  simp

/-! ### Lines -/

/-- The line of a text with this number, from zero: what lies above it, what it says, the carriage
return that may end it, and what lies below, from its line feed on. -/
structure IsLine (text : List Char) (number : Nat) (above content ending below : List Char) :
    Prop where
  eq : text = above ++ (content ++ ending ++ below)
  starts : ∀ c ∈ above.getLast?, c = '\n'
  count : above.count '\n' = number
  unbroken : '\n' ∉ content
  ending : ending = ['\r'] ∨ ending = [] ∧ content.getLast? ≠ some '\r'
  stops : ∀ c ∈ below.head?, c = '\n'

/-- A line ends in a carriage return or does not. -/
theorem exists_ending (line : List Char) : ∃ content ending, line = content ++ ending ∧
    (ending = ['\r'] ∨ ending = [] ∧ content.getLast? ≠ some '\r') := by
  by_cases h : line.getLast? = some '\r'
  · obtain ⟨content, rfl⟩ := List.getLast?_eq_some_iff.1 h
    exact ⟨content, ['\r'], rfl, .inl rfl⟩
  · exact ⟨line, [], (List.append_nil line).symm, .inr ⟨rfl, h⟩⟩

theorem dropReturn_eq (h : ending = ['\r'] ∨ ending = [] ∧ content.getLast? ≠ some '\r') :
    dropReturn (content ++ ending) = content := by
  rcases h with rfl | ⟨rfl, hlast⟩
  · simp [dropReturn]
  · rw [List.append_nil]
    unfold dropReturn
    split
    · next h => exact absurd h hlast
    · rfl

namespace IsLine

theorem newline_notMem (h : IsLine text number above content ending below) :
    '\n' ∉ content ++ ending := by
  rcases h.ending with hending | ⟨hending, -⟩ <;> simp [hending, h.unbroken]

/-- What a line says ends before any later line begins. -/
theorem le_above (h : IsLine text number above content ending below)
    (h' : IsLine text number' above' content' ending' below') (hlt : number < number') :
    byteLength (above ++ content) ≤ byteLength above' := by
  have hfirst : above ++ content <+: text := ⟨ending ++ below, by rw [h.eq]; simp⟩
  have hsecond : above' <+: text := ⟨_, h'.eq.symm⟩
  rcases List.prefix_or_prefix_of_prefix hfirst hsecond with hle | hle
  · exact byteLength_le hle
  · -- the later line has more line feeds above it than there are up to the end of this one
    have hcount := hle.sublist.count_le '\n'
    rw [List.count_append, h.count, h'.count, List.count_eq_zero_of_not_mem h.unbroken] at hcount
    omega

end IsLine

theorem linesFrom_append (hline : '\n' ∉ line) (start offset : Nat) (acc rest : List Char) :
    linesFrom start offset acc (line ++ rest) =
      linesFrom start (offset + byteLength line) (line.reverse ++ acc) rest := by
  induction line generalizing offset acc with
  | nil => rfl
  | cons c line ih =>
    obtain ⟨hc, hline⟩ := List.ne_and_not_mem_of_not_mem_cons hline
    rw [List.cons_append, linesFrom, if_neg hc.symm, ih hline, byteLength_cons, ← Nat.add_assoc]
    simp

/-- The line that stands below `above`. -/
theorem getElem?_linesFrom (hstarts : ∀ c ∈ above.getLast?, c = '\n') (hline : '\n' ∉ line)
    (hstops : ∀ c ∈ below.head?, c = '\n') (offset : Nat) :
    (linesFrom offset offset [] (above ++ (line ++ below)))[above.count '\n']? =
      some (offset + byteLength above, line) := by
  generalize hnumber : above.count '\n' = number
  induction number generalizing above offset with
  | zero =>
    obtain rfl : above = [] := by
      by_contra hne
      have hlast := List.getLast?_eq_some_getLast hne
      have hmem := List.getLast_mem hne
      rw [hstarts _ hlast] at hmem
      exact List.count_eq_zero.1 hnumber hmem
    rw [List.nil_append, linesFrom_append hline]
    cases below with
    | nil => simp [linesFrom]
    | cons c below => simp [linesFrom, hstops c rfl]
  | succ number ih =>
    have hmem : '\n' ∈ above := List.count_pos_iff.1 (by omega)
    obtain ⟨first, rest, rfl, hfirst⟩ := List.eq_append_cons_of_mem hmem
    have hrest : rest.count '\n' = number := by
      rw [List.count_append, List.count_cons_self, List.count_eq_zero_of_not_mem hfirst] at hnumber
      omega
    have hstarts' : ∀ c ∈ rest.getLast?, c = '\n' := fun c hc =>
      hstarts c (by simp [List.getLast?_append, List.getLast?_cons, Option.mem_def.1 hc])
    have hw : utf8Width '\n' = 1 := rfl
    rw [List.append_assoc, List.cons_append, linesFrom_append hfirst, linesFrom, if_pos rfl,
      List.getElem?_cons_succ, ih hstarts' _ hrest]
    simp [hw, Nat.add_assoc]

theorem length_linesFrom (start offset : Nat) (acc : List Char) :
    (linesFrom start offset acc text).length = text.count '\n' + 1 := by
  induction text generalizing start offset acc with
  | nil => rfl
  | cons c text ih =>
    rw [linesFrom]
    split
    · next hc => rw [List.length_cons, ih, hc, List.count_cons_self]
    · next hc => rw [ih, List.count_cons_of_ne (Ne.symm (Ne.symm hc))]

/-- There is a line behind every line feed. -/
theorem exists_isLine (h : number ≤ text.count '\n') :
    ∃ above content ending below, IsLine text number above content ending below := by
  induction number generalizing text with
  | zero =>
    obtain ⟨line, below, rfl, hline, hbelow⟩ : ∃ line below, text = line ++ below ∧
        '\n' ∉ line ∧ ∀ c ∈ below.head?, c = '\n' := by
      by_cases hmem : '\n' ∈ text
      · obtain ⟨line, rest, rfl, hline⟩ := List.eq_append_cons_of_mem hmem
        exact ⟨line, '\n' :: rest, rfl, hline, by simp⟩
      · exact ⟨text, [], (List.append_nil text).symm, hmem, nofun⟩
    obtain ⟨content, ending, rfl, hending⟩ := exists_ending line
    exact ⟨[], content, ending, below, rfl, nofun, rfl,
      fun hmem => hline (List.mem_append_left _ hmem), hending, hbelow⟩
  | succ number ih =>
    have hmem : '\n' ∈ text := List.count_pos_iff.1 (by omega)
    obtain ⟨first, rest, rfl, hfirst⟩ := List.eq_append_cons_of_mem hmem
    rw [List.count_append, List.count_cons_self, List.count_eq_zero_of_not_mem hfirst] at h
    have hrest : number ≤ rest.count '\n' := by omega
    obtain ⟨above, content, ending, below, hline⟩ := ih hrest
    refine ⟨first ++ '\n' :: above, content, ending, below, ?_, ?_, ?_, hline.unbroken,
      hline.ending, hline.stops⟩
    · rw [hline.eq]
      simp
    · intro c hc
      rw [List.getLast?_append, List.getLast?_cons] at hc
      cases habove : above.getLast? with
      | none => simpa [habove, eq_comm] using hc
      | some d =>
        obtain rfl : d = c := by simpa [habove] using hc
        exact hline.starts d habove
    · rw [List.count_append, List.count_cons_self, List.count_eq_zero_of_not_mem hfirst, hline.count]
      omega

/-! ### Columns -/

/-- The shortest beginning of a line that has so many units; all of the line if it has fewer. -/
structure Covers (column : Nat) (content before : List Char) : Prop where
  beginning : before <+: content
  far : column ≤ utf16Length before ∨ before = content
  least : ∀ b, b <+: content → column ≤ utf16Length b ∨ b = content → before <+: b

namespace Covers

theorem mono (h : Covers column content before) (h' : Covers column' content before')
    (hle : column ≤ column') : before <+: before' :=
  h.least before' h'.beginning (h'.far.imp_left (Nat.le_trans hle))

/-- A beginning of the line is reached at its own length. -/
theorem eq_of_beginning (h : Covers (utf16Length before') content before)
    (h' : before' <+: content) : before = before' := by
  have hle := h.least before' h' (.inl (Nat.le_refl _))
  rcases h.far with hfar | rfl
  · exact eq_of_utf16Length_le hle hfar
  · exact eq_of_utf16Length_le hle (utf16Length_le h')

/-- What is longer than the line reaches its end. -/
theorem eq_of_lt (h : Covers column content before) (hlt : utf16Length content < column) :
    before = content := by
  refine h.far.resolve_left fun hfar => ?_
  have hle := utf16Length_le h.beginning
  omega

end Covers

/-- As long as the units can be counted, the offset is that of the shortest beginning that reaches
the column. -/
theorem covers_columnOffset (column : UInt32) (offset : Nat) (units : UInt32)
    (hfit : units.toNat + utf16Length line < 2 ^ 32) :
    ∃ before, Covers (column.toNat - units.toNat) line before ∧
      columnOffset column offset units line = offset + byteLength before := by
  -- by induction on the line, with the units that are counted so far
  induction line generalizing offset units with
  | nil => exact ⟨[], ⟨List.prefix_rfl, .inr rfl, fun b _ _ => List.nil_prefix⟩, rfl⟩
  | cons c rest ih =>
    rw [columnOffset]
    split
    · next hreached =>
      have hzero : column.toNat - units.toNat = 0 := Nat.sub_eq_zero_of_le hreached
      exact ⟨[], ⟨List.nil_prefix, .inl (by omega), fun b _ _ => List.nil_prefix⟩, rfl⟩
    · next hshort =>
      have hlt : units.toNat < column.toNat := UInt32.not_le.1 hshort
      rw [utf16Length_cons] at hfit
      -- the count does not wrap, as the whole line fits
      have hsum : (units + utf16Width c).toNat = units.toNat + (utf16Width c).toNat := by
        rw [UInt32.toNat_add, Nat.mod_eq_of_lt (by omega)]
      obtain ⟨before, hbefore, hoffset⟩ :=
        ih (offset + utf8Width c) (units + utf16Width c) (by omega)
      rw [hsum] at hbefore
      refine ⟨c :: before, ⟨?_, ?_, fun b hb hfar => ?_⟩, ?_⟩
      · exact List.cons_prefix_cons.2 ⟨rfl, hbefore.beginning⟩
      · rcases hbefore.far with hfar | rfl
        · refine .inl ?_
          rw [utf16Length_cons]
          omega
        · exact .inr rfl
      · cases b with
        | nil =>
          rcases hfar with hfar | hfar
          · rw [utf16Length_nil] at hfar
            omega
          · cases hfar
        | cons d b =>
          obtain ⟨rfl, hb'⟩ := List.cons_prefix_cons.1 hb
          refine List.cons_prefix_cons.2 ⟨rfl, hbefore.least b hb' ?_⟩
          rcases hfar with hfar | hfar
          · refine .inl ?_
            rw [utf16Length_cons] at hfar
            omega
          · exact .inr (List.cons.inj hfar).2
      · rw [hoffset, byteLength_cons, Nat.add_assoc]

/-! ### Offsets -/

section Offsets

variable (hfit : utf16Length text < 2 ^ 32 - 1)
include hfit

theorem offsetAt_of_isLine (h : IsLine text p.line.toNat above content ending below) :
    ∃ before, Covers p.character.toNat content before ∧
      offsetAt text p = byteLength (above ++ before) := by
  have hline := getElem?_linesFrom h.starts h.newline_notMem h.stops 0
  rw [← h.eq, h.count, Nat.zero_add] at hline
  have hcontent : (0 : UInt32).toNat + utf16Length content < 2 ^ 32 := by
    have htext := congrArg utf16Length h.eq
    simp only [utf16Length_append] at htext
    show 0 + _ < _
    omega
  obtain ⟨before, hbefore, hoffset⟩ :=
    covers_columnOffset p.character (byteLength above) 0 hcontent
  refine ⟨before, hbefore, ?_⟩
  rw [offsetAt, offsetIn, linesOf, hline]
  dsimp only
  rw [dropReturn_eq h.ending, hoffset, byteLength_append]

omit hfit in
theorem offsetAt_of_count_lt (h : text.count '\n' < p.line.toNat) :
    offsetAt text p = byteLength text := by
  have hnone : (linesOf text)[p.line.toNat]? = none := by
    rw [List.getElem?_eq_none_iff, linesOf, length_linesFrom]
    omega
  rw [offsetAt, offsetIn, hnone]

/-- Positions in order stand for offsets in order. -/
theorem offsetAt_mono (h : p.le q = true) : offsetAt text p ≤ offsetAt text q := by
  by_cases hq : q.line.toNat ≤ text.count '\n'
  · obtain ⟨above', content', ending', below', hline'⟩ := exists_isLine hq
    obtain ⟨before', hbefore', hoffset'⟩ := offsetAt_of_isLine hfit hline'
    have hle : p.line < q.line ∨ p.line = q.line ∧ p.character ≤ q.character := by
      simpa [Position.le] using h
    rcases hle with hlt | ⟨heq, hle⟩
    · have hlt : p.line.toNat < q.line.toNat := hlt
      obtain ⟨above, content, ending, below, hline⟩ :=
        exists_isLine (Nat.le_of_lt (Nat.lt_of_lt_of_le hlt hq))
      obtain ⟨before, hbefore, hoffset⟩ := offsetAt_of_isLine hfit hline
      calc offsetAt text p = byteLength (above ++ before) := hoffset
        _ ≤ byteLength (above ++ content) :=
          byteLength_le ((List.prefix_append_right_inj above).2 hbefore.beginning)
        _ ≤ byteLength above' := hline.le_above hline' hlt
        _ ≤ byteLength (above' ++ before') := byteLength_le (List.prefix_append _ _)
        _ = offsetAt text q := hoffset'.symm
    · rw [← heq] at hline'
      obtain ⟨before, hbefore, hoffset⟩ := offsetAt_of_isLine hfit hline'
      rw [hoffset, hoffset']
      exact byteLength_le ((List.prefix_append_right_inj above').2 (hbefore.mono hbefore' hle))
  · rw [offsetAt_of_count_lt (Nat.lt_of_not_le hq)]
    exact (isBoundary_offsetAt text p).le

end Offsets

/-! ### There and back -/

/-- The last line of a text. -/
def sinceNewline (before : List Char) : List Char :=
  (before.reverse.takeWhile (· ≠ '\n')).reverse

/-- The position behind a beginning of a text. -/
def positionAfter (before : List Char) : Position :=
  ⟨UInt32.ofNat (before.count '\n'), UInt32.ofNat (utf16Length (sinceNewline before))⟩

/-- The place between the two lies behind a carriage return that ends its line. -/
def BehindReturn (before after : List Char) : Prop :=
  before.getLast? = some '\r' ∧ (after = [] ∨ after.head? = some '\n')

instance (before after : List Char) : Decidable (BehindReturn before after) :=
  inferInstanceAs (Decidable (_ ∧ _))

theorem exists_above (before : List Char) : ∃ above,
    before = above ++ sinceNewline before ∧ (∀ c ∈ above.getLast?, c = '\n') ∧
      '\n' ∉ sinceNewline before := by
  refine ⟨(before.reverse.dropWhile (· ≠ '\n')).reverse, ?_, fun c hc => ?_, fun hmem => ?_⟩
  · rw [sinceNewline, ← List.reverse_append, List.takeWhile_append_dropWhile, List.reverse_reverse]
  · rw [List.getLast?_reverse] at hc
    have hnot := List.head?_dropWhile_not (· ≠ '\n') before.reverse
    rw [Option.mem_def.1 hc] at hnot
    simpa using hnot
  · rw [sinceNewline, List.mem_reverse] at hmem
    simpa using List.mem_takeWhile_imp hmem

/-- The line that a place lies in, of which `since` is passed. -/
theorem exists_isLine_of_since {since : List Char} (hstarts : ∀ c ∈ above.getLast?, c = '\n')
    (hsince : '\n' ∉ since) (after : List Char) :
    ∃ content ending rest below, since ++ rest = content ++ ending ∧ after = rest ++ below ∧
      IsLine (above ++ since ++ after) (above.count '\n') above content ending below := by
  have hrest : '\n' ∉ after.takeWhile (· ≠ '\n') := fun hmem => by
    simpa using List.mem_takeWhile_imp hmem
  have hstops : ∀ c ∈ (after.dropWhile (· ≠ '\n')).head?, c = '\n' := fun c hc => by
    have hnot := List.head?_dropWhile_not (· ≠ '\n') after
    rw [Option.mem_def.1 hc] at hnot
    simpa using hnot
  have hafter := List.takeWhile_append_dropWhile (p := (· ≠ '\n')) (l := after)
  obtain ⟨content, ending, hline, hending⟩ := exists_ending (since ++ after.takeWhile (· ≠ '\n'))
  refine ⟨content, ending, _, _, hline, hafter.symm, ?_, hstarts, rfl, ?_, hending, hstops⟩
  · rw [← hline, List.append_assoc, List.append_assoc, hafter]
  · intro hmem
    have hmem' : '\n' ∈ since ++ after.takeWhile (· ≠ '\n') :=
      hline ▸ List.mem_append_left ending hmem
    exact (List.mem_append.1 hmem').elim hsince hrest

section

variable {since : List Char}

theorem behindReturn_iff
    (h : IsLine (above ++ since ++ (rest ++ below)) number above content ending below)
    (hline : since ++ rest = content ++ ending) :
    BehindReturn (above ++ since) (rest ++ below) ↔ since = content ++ ['\r'] := by
  constructor
  · rintro ⟨hlast, hafter⟩
    have hrest : rest = [] := by
      rcases rest with _ | ⟨c, rest⟩
      · rfl
      · refine absurd (hline ▸ List.mem_append_right since ?_) h.newline_notMem
        have hc : c = '\n' := by simpa using hafter
        exact hc ▸ List.mem_cons_self
    rw [hrest, List.append_nil] at hline
    rcases h.ending with hending | ⟨hending, hnot⟩
    · rw [hline, hending]
    · -- the line does not end in a carriage return, and neither does what is above it
      rw [hline, hending, List.append_nil, List.getLast?_append, Option.or_eq_some_iff] at hlast
      rcases hlast with hlast | ⟨-, hlast⟩
      · exact absurd hlast hnot
      · exact absurd (h.starts _ hlast) (by decide)
  · rintro rfl
    have hending : '\r' :: rest = ending := by
      rw [List.append_assoc, List.append_right_inj] at hline
      exact hline
    obtain rfl : rest = [] := by
      rcases h.ending with hreturn | ⟨hnone, -⟩
      · rw [hreturn] at hending
        exact (List.cons.inj hending).2
      · rw [hnone] at hending
        cases hending
    refine ⟨by simp [List.getLast?_append], ?_⟩
    rcases below with _ | ⟨c, below⟩
    · exact .inl rfl
    · exact .inr (congrArg some (h.stops c rfl))

/-- A place in a line is in what the line says, or behind the carriage return. -/
theorem beginning_or_behind
    (hending : ending = ['\r'] ∨ ending = [] ∧ content.getLast? ≠ some '\r')
    (hline : since ++ rest = content ++ ending) :
    since <+: content ∨ since = content ++ ['\r'] := by
  have hsince : since <+: content ++ ending := ⟨rest, hline⟩
  rcases hending with rfl | ⟨rfl, -⟩
  · exact (List.prefix_concat_iff.1 hsince).symm
  · rw [List.append_nil] at hsince
    exact .inl hsince

end

theorem line_positionAfter (hfit : utf16Length before < 2 ^ 32) :
    (positionAfter before).line.toNat = before.count '\n' := by
  have hle := (List.count_le_length (a := '\n')).trans (length_le_utf16Length before)
  exact UInt32.toNat_ofNat_of_lt' (Nat.lt_of_le_of_lt hle hfit)

theorem character_positionAfter (hfit : utf16Length before < 2 ^ 32) :
    (positionAfter before).character.toNat = utf16Length (sinceNewline before) := by
  obtain ⟨above, hbefore, -, -⟩ := exists_above before
  have hsum := congrArg utf16Length hbefore
  rw [utf16Length_append] at hsum
  exact UInt32.toNat_ofNat_of_lt' (show _ < 2 ^ 32 by omega)

/-- The position of a place leads back there, or before the carriage return that it is behind. -/
theorem offsetAt_positionAfter (hfit : utf16Length (before ++ after) < 2 ^ 32 - 1) :
    offsetAt (before ++ after) (positionAfter before) =
      byteLength (if BehindReturn before after then before.dropLast else before) := by
  obtain ⟨above, hbefore, hstarts, hsince⟩ := exists_above before
  have hfit' : utf16Length before < 2 ^ 32 := by
    rw [utf16Length_append] at hfit
    omega
  have hnumber := line_positionAfter hfit'
  have hcolumn := character_positionAfter hfit'
  generalize positionAfter before = p at hnumber hcolumn ⊢
  generalize sinceNewline before = since at hbefore hsince hcolumn
  subst hbefore
  obtain ⟨content, ending, rest, below, hline, rfl, hisLine⟩ :=
    exists_isLine_of_since hstarts hsince after
  rw [List.count_append, List.count_eq_zero_of_not_mem hsince, Nat.add_zero] at hnumber
  obtain ⟨reached, hreached, hoffset⟩ := offsetAt_of_isLine hfit (hnumber ▸ hisLine)
  rw [hoffset, hcolumn] at *
  have hbehind := behindReturn_iff hisLine hline
  -- the position is within the content of its line, or behind the return that ends it
  rcases beginning_or_behind hisLine.ending hline with hbeginning | hreturn
  · have hnot : ¬ BehindReturn (above ++ since) (rest ++ below) := fun h => by
      have hlength := hbeginning.length_le
      rw [hbehind.1 h, List.length_append, List.length_singleton] at hlength
      omega
    rw [if_neg hnot, hreached.eq_of_beginning hbeginning]
  · have hlonger : utf16Length content < utf16Length since := by
      rw [hreturn, utf16Length_append]
      have hpos := utf16Width_pos '\r'
      rw [utf16Length_cons]
      omega
    rw [if_pos (hbehind.2 hreturn), hreached.eq_of_lt hlonger, hreturn, ← List.append_assoc,
      List.dropLast_concat]

/-! ### Slices -/

/-- Cut a text at a byte offset, if it is a boundary. -/
def cut? : Nat → List Char → Option (List Char × List Char)
  | 0, cs => some ([], cs)
  | _ + 1, [] => none
  | n + 1, c :: cs =>
    if utf8Width c ≤ n + 1 then (cut? (n + 1 - utf8Width c) cs).map fun (a, b) => (c :: a, b)
    else none

/-- The part of a text from one byte offset to another, if they are boundaries in this order. -/
def slice? (text : List Char) (start stop : Nat) : Option (List Char) :=
  (cut? stop text).bind fun (front, _) => (cut? start front).map Prod.snd

/-- Copy a text from offset `cursor` on, slice by slice, with the splices made on the way. -/
def copySlices? (text : List Char) (cursor : Nat) :
    List Splice → Option (Except Overlap (List Char))
  | [] => (slice? text cursor (byteLength text)).map .ok
  | s :: splices =>
    if s.start < cursor then some (.error ⟨s.index, s.start, cursor⟩)
    else (slice? text cursor s.start).bind fun kept =>
      (copySlices? text s.stop splices).map fun result =>
        result.map fun out => kept ++ s.newText ++ out

theorem cut?_append (before after : List Char) :
    cut? (byteLength before) (before ++ after) = some (before, after) := by
  induction before with
  | nil => cases after <;> rfl
  | cons c before ih =>
    have hpos := utf8Width_pos c
    obtain ⟨n, hn⟩ : ∃ n, byteLength (c :: before) = n + 1 :=
      ⟨byteLength (c :: before) - 1, by rw [byteLength_cons]; omega⟩
    have hleft : n + 1 - utf8Width c = byteLength before := by
      rw [← hn, byteLength_cons, Nat.add_sub_cancel_left]
    have hle : utf8Width c ≤ n + 1 := by
      rw [← hn, byteLength_cons]
      exact Nat.le_add_right ..
    rw [hn, List.cons_append, cut?, if_pos hle, hleft, ih]
    rfl

theorem slice?_append (before kept after : List Char) :
    slice? (before ++ kept ++ after) (byteLength before) (byteLength (before ++ kept)) =
      some kept := by
  rw [slice?, cut?_append, Option.bind_some]
  dsimp only
  rw [cut?_append, Option.map_some]

theorem copySlices?_append {done : List Char} {splices : List Splice}
    (htext : text = done ++ rest) (hfits : ∀ s ∈ splices, s.replacement.Fits text) :
    copySlices? text (byteLength done) splices =
      some (copyFrom (byteLength done) rest splices) := by
  induction splices generalizing done rest with
  | nil =>
    have hslice := slice?_append done rest []
    rw [List.append_nil, ← htext] at hslice
    rw [copySlices?, hslice, Option.map_some, copyFrom]
  | cons s splices ih =>
    by_cases hlt : s.start < byteLength done
    · rw [copySlices?, if_pos hlt, copyFrom, if_pos hlt]
    · obtain ⟨kept, gone, left, htext', hstart, hstop, hstep⟩ :=
        copyFrom_cons splices htext (hfits s (List.mem_cons_self ..)) (Nat.le_of_not_lt hlt)
      have hslice : slice? text (byteLength done) s.start = some kept := by
        rw [htext', ← hstart, List.append_assoc (done ++ kept)]
        exact slice?_append done kept (gone ++ left)
      have hrest := ih htext' fun t ht => hfits t (List.mem_cons_of_mem _ ht)
      rw [hstop] at hrest
      rw [copySlices?, if_neg hlt, hslice, Option.bind_some, hrest, Option.map_some, hstep]

/-- All slices that making edits takes are there. -/
theorem copySlices?_eq (text : List Char) (edits : List TextEdit) :
    copySlices? text 0 (sortSplices (resolve text edits)) = some (applyChars text edits) :=
  copySlices?_append (List.nil_append text).symm fits_of_mem_sortSplices

/-! ### Positions -/

/-- Of a text whose units can be counted every position stands for a boundary, so that edits can be
made by slices. In a line that there is it is the first boundary that reaches the column, and else
the end of the text. The order of positions is that of boundaries, and every place is found again by
its position, except that a carriage return that ends its line is not passed. -/
theorem offsetAt_spec {text : List Char} (hfit : utf16Length text < 2 ^ 32 - 1) :
    (∀ p, IsBoundary text (offsetAt text p) ∧ offsetAt text p ≤ byteLength text) ∧
      (∀ edits, copySlices? text 0 (sortSplices (resolve text edits)) =
        some (applyChars text edits)) ∧
      (∀ p above content ending below, IsLine text p.line.toNat above content ending below →
        ∃ before, Covers p.character.toNat content before ∧
          offsetAt text p = byteLength (above ++ before)) ∧
      (∀ number, number ≤ text.count '\n' →
        ∃ above content ending below, IsLine text number above content ending below) ∧
      (∀ p, text.count '\n' < p.line.toNat → offsetAt text p = byteLength text) ∧
      (∀ p q, p.le q = true → offsetAt text p ≤ offsetAt text q) ∧
      ∀ before after, text = before ++ after → offsetAt text (positionAfter before) =
        byteLength (if BehindReturn before after then before.dropLast else before) := by
  refine ⟨fun p => ⟨isBoundary_offsetAt text p, (isBoundary_offsetAt text p).le⟩,
    copySlices?_eq text, fun p _ _ _ _ h => offsetAt_of_isLine hfit h, fun _ => exists_isLine,
    fun p => offsetAt_of_count_lt, fun p q => offsetAt_mono hfit, ?_⟩
  rintro before after rfl
  exact offsetAt_positionAfter hfit

/-- Two lines, the first of which ends in a carriage return, behind characters of one and two
units. -/
theorem offsetAt_spec_twoLines :
    let text := "é😀\r\na".toList
    utf16Length text < 2 ^ 32 - 1 ∧
      (∃ before, Covers 2 "é😀".toList before ∧ offsetAt text ⟨0, 2⟩ = byteLength before) ∧
      offsetAt text ⟨0, 2⟩ ≤ offsetAt text ⟨1, 0⟩ ∧ offsetAt text ⟨2, 0⟩ = byteLength text ∧
      offsetAt text (positionAfter "é😀\r".toList) = byteLength "é😀".toList := by
  intro text
  have hfit : utf16Length text < 2 ^ 32 - 1 := by decide
  obtain ⟨-, -, hcovers, -, hend, hmono, hback⟩ := offsetAt_spec hfit
  have hline : IsLine text 0 [] "é😀".toList ['\r'] "\na".toList :=
    ⟨by decide, nofun, rfl, by decide, .inl rfl, by simp⟩
  exact ⟨hfit, hcovers ⟨0, 2⟩ _ _ _ _ hline, hmono _ _ (by decide), hend _ (by decide),
    hback "é😀\r".toList "\na".toList (by decide)⟩

end LspClient
