import LspClient.Edit.Apply
import LspClient.Proofs.Text.Bytes

/-!
# Boundaries

A boundary of a text is the byte length of some beginning of it. Every offset that `offsetAt` gives
is one (`isBoundary_offsetAt`), and at a boundary `splitBytes` cuts a text in two without loss
(`splitBytes_append`).
-/

namespace LspClient

/-- Whether byte offset `n` of a text lies between two of its characters, or at one of its ends. -/
def IsBoundary (text : List Char) (n : Nat) : Prop :=
  ∃ before after, text = before ++ after ∧ byteLength before = n

/-! ### Lengths in bytes -/

theorem utf8Width_pos (c : Char) : 0 < utf8Width c := c.utf8Size_pos

@[simp] theorem byteLength_nil : byteLength [] = 0 := rfl

@[simp] theorem byteLength_cons (c : Char) (cs : List Char) :
    byteLength (c :: cs) = utf8Width c + byteLength cs := rfl

@[simp] theorem byteLength_append (a b : List Char) :
    byteLength (a ++ b) = byteLength a + byteLength b := by
  induction a with
  | nil => rw [List.nil_append, byteLength_nil, Nat.zero_add]
  | cons c a ih => rw [List.cons_append, byteLength_cons, byteLength_cons, ih, Nat.add_assoc]

@[simp] theorem byteLength_reverse (a : List Char) : byteLength a.reverse = byteLength a := by
  induction a with
  | nil => rfl
  | cons c a ih => simp [ih, Nat.add_comm]

theorem eq_nil_of_byteLength_eq_zero {a : List Char} (h : byteLength a = 0) : a = [] := by
  cases a with
  | nil => rfl
  | cons c cs =>
    have := utf8Width_pos c
    rw [byteLength_cons] at h
    omega

@[simp] theorem length_bytesOf (cs : List Char) : (bytesOf cs).length = byteLength cs := by
  induction cs with
  | nil => rfl
  | cons c cs ih =>
    rw [byteLength_cons, bytesOf_cons, List.length_append, ih, String.length_utf8EncodeChar]
    rfl

namespace IsBoundary
variable {text done rest : List Char} {n : Nat}

theorem le (h : IsBoundary text n) : n ≤ byteLength text := by
  obtain ⟨before, after, rfl, rfl⟩ := h
  simp

/-- A boundary behind a beginning of the text is a boundary of what is left of it. -/
theorem of_append (h : IsBoundary (done ++ rest) n) (hn : byteLength done ≤ n) :
    ∃ kept behind, rest = kept ++ behind ∧ byteLength kept = n - byteLength done := by
  obtain ⟨before, after, heq, rfl⟩ := h
  rcases List.append_eq_append_iff.1 heq with ⟨kept, rfl, rfl⟩ | ⟨extra, rfl, rfl⟩
  · exact ⟨kept, after, rfl, by simp⟩
  · have hextra : extra = [] :=
      eq_nil_of_byteLength_eq_zero (by rw [byteLength_append] at hn; omega)
    subst hextra
    exact ⟨[], rest, rfl, by simp⟩

end IsBoundary

/-! ### Cutting -/

theorem charsWithin_append (count : Nat) (before after : List Char) :
    charsWithin count (byteLength before) (before ++ after) = count + before.length := by
  induction before generalizing count with
  | nil => cases after <;> simp [charsWithin]
  | cons c before ih =>
    have hc := utf8Width_pos c
    have hne : ¬ utf8Width c + byteLength before = 0 := by omega
    rw [byteLength_cons, List.cons_append, charsWithin, if_neg hne, Nat.add_sub_cancel_left, ih]
    simp only [List.length_cons]
    omega

theorem splitBytes_append (before after : List Char) :
    splitBytes (byteLength before) (before ++ after) = (before, after) := by
  simp [splitBytes, charsWithin_append, List.splitAt_eq]

/-! ### Where positions lie -/

/-- Each line of a text stands in it at the offset that is given for it. -/
theorem mem_linesFrom {s start offset : Nat} {line text : List Char} (acc : List Char)
    (hoff : offset = start + byteLength acc) (h : (s, line) ∈ linesFrom start offset acc text) :
    ∃ before after, acc.reverse ++ text = before ++ line ++ after ∧
      s = start + byteLength before := by
  induction text generalizing start offset acc with
  | nil =>
    simp only [linesFrom, List.mem_singleton, Prod.mk.injEq] at h
    obtain ⟨rfl, rfl⟩ := h
    exact ⟨[], [], by simp, rfl⟩
  | cons c rest ih =>
    rw [linesFrom] at h
    split_ifs at h with hc
    · rcases List.mem_cons.1 h with heq | h
      · obtain ⟨rfl, rfl⟩ := Prod.mk.inj heq
        exact ⟨[], c :: rest, rfl, rfl⟩
      · obtain ⟨before, after, hrest, hs⟩ := ih [] rfl h
        refine ⟨acc.reverse ++ c :: before, after, ?_, ?_⟩
        · simp only [List.reverse_nil, List.nil_append] at hrest
          simp [hrest]
        · have hw : utf8Width c = 1 := by rw [hc]; rfl
          rw [hs, hoff, byteLength_append, byteLength_reverse, byteLength_cons, hw]
          omega
    · obtain ⟨before, after, htext, hs⟩ := ih (c :: acc) (by
        rw [hoff, byteLength_cons]; omega) h
      exact ⟨before, after, by simpa using htext, hs⟩

theorem columnOffset_eq (column : UInt32) (offset : Nat) (units : UInt32) (line : List Char) :
    ∃ before after, line = before ++ after ∧
      columnOffset column offset units line = offset + byteLength before := by
  induction line generalizing offset units with
  | nil => exact ⟨[], [], rfl, rfl⟩
  | cons c rest ih =>
    rw [columnOffset]
    split_ifs with hu
    · exact ⟨[], c :: rest, rfl, rfl⟩
    · obtain ⟨before, after, rfl, hoff⟩ := ih (offset + utf8Width c) (units + utf16Width c)
      exact ⟨c :: before, after, rfl, by rw [hoff, byteLength_cons]; omega⟩

theorem dropReturn_append (line : List Char) : ∃ tail, line = dropReturn line ++ tail := by
  unfold dropReturn
  split
  · exact ⟨line.drop (line.length - 1), by simp [List.dropLast_eq_take]⟩
  · exact ⟨[], by simp⟩

theorem isBoundary_offsetAt (text : List Char) (p : Position) :
    IsBoundary text (offsetAt text p) := by
  unfold offsetAt offsetIn
  split
  · exact ⟨text, [], by simp, rfl⟩
  · next start line hline =>
    have hmem : (start, line) ∈ linesFrom 0 0 [] text := List.mem_of_getElem? hline
    obtain ⟨before, after, htext, hstart⟩ := mem_linesFrom [] rfl hmem
    obtain ⟨tail, htail⟩ := dropReturn_append line
    obtain ⟨inLine, behind, hcut, hoff⟩ :=
      columnOffset_eq p.character start 0 (dropReturn line)
    refine ⟨before ++ inLine, behind ++ tail ++ after, ?_, ?_⟩
    · simp only [List.reverse_nil, List.nil_append] at htext
      rw [htext, htail, hcut]
      simp
    · rw [hoff, hstart, byteLength_append]
      omega

end LspClient
