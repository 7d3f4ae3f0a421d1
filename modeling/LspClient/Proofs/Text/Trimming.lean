import LspClient.Text.Blank
import Mathlib.Data.List.TakeWhile

/-!
# Trimming

What `trimChars` takes off are the blank characters at both ends (`trimChars_spec`); a text that
neither begins nor ends with one is left as it is (`trimChars_append`), and so is what was trimmed
before.
-/

namespace LspClient.Text

theorem dropEndWhile_append {p : Char → Bool} {core tail : List Char}
    (htail : ∀ c ∈ tail, p c = true) (hlast : ∀ c ∈ core.getLast?, p c = false) :
    dropEndWhile p (core ++ tail) = core := by
  rw [dropEndWhile, List.reverse_append, List.dropWhile_append_of_pos (by simpa using htail)]
  have hhead : ∀ c ∈ core.reverse.head?, p c = false := by simpa using hlast
  cases hcore : core.reverse with
  | nil => rw [List.reverse_eq_nil_iff.1 hcore]; rfl
  | cons c cs =>
    rw [hcore] at hhead
    rw [List.dropWhile_cons_of_neg (by simp [hhead c rfl]), ← hcore, List.reverse_reverse]

/-- Blank characters around a text that neither begins nor ends with one are trimmed off. -/
theorem trimChars_append (front core tail : List Char) (hfront : ∀ c ∈ front, blank c = true)
    (htail : ∀ c ∈ tail, blank c = true) (hne : core ≠ [])
    (hfirst : ∀ c ∈ core.head?, blank c = false) (hlast : ∀ c ∈ core.getLast?, blank c = false) :
    trimChars (front ++ core ++ tail) = core := by
  cases core with
  | nil => exact absurd rfl hne
  | cons c cs =>
    rw [trimChars, List.append_assoc, List.dropWhile_append_of_pos hfront, List.cons_append,
      List.dropWhile_cons_of_neg (by simp [hfirst c rfl]), ← List.cons_append,
      dropEndWhile_append htail hlast]

/-- Trimming takes blank characters off both ends, and nothing else. -/
theorem trimChars_spec (cs : List Char) : ∃ front tail, cs = front ++ trimChars cs ++ tail ∧
    (∀ c ∈ front, blank c = true) ∧ ∀ c ∈ tail, blank c = true := by
  refine ⟨cs.takeWhile blank, ((cs.dropWhile blank).reverse.takeWhile blank).reverse, ?_,
    fun c hc => List.mem_takeWhile_imp hc,
    fun c hc => List.mem_takeWhile_imp (List.mem_reverse.1 hc)⟩
  have hrest := List.takeWhile_append_dropWhile (p := blank) (l := (cs.dropWhile blank).reverse)
  rw [trimChars, dropEndWhile, List.append_assoc, ← List.reverse_append, hrest,
    List.reverse_reverse, List.takeWhile_append_dropWhile]

theorem trimChars_of_blank {cs : List Char} (h : ∀ c ∈ cs, blank c = true) :
    trimChars cs = [] := by
  rw [trimChars, List.dropWhile_eq_nil_iff.2 h]
  rfl

theorem blank_of_trimChars_eq_nil {cs : List Char} (h : trimChars cs = []) :
    ∀ c ∈ cs, blank c = true := by
  obtain ⟨front, tail, hcs, hfront, htail⟩ := trimChars_spec cs
  rw [hcs, h, List.append_nil]
  exact fun c hc => (List.mem_append.1 hc).elim (hfront c) (htail c)

theorem trimChars_cons_ne_nil {c : Char} (cs : List Char) (hc : blank c = false) :
    trimChars (c :: cs) ≠ [] := fun h => by
  have hblank := blank_of_trimChars_eq_nil h c (List.mem_cons_self ..)
  rw [hc] at hblank
  cases hblank

/-! ### Trimmed texts -/

/-- The text neither begins nor ends with a blank character. -/
structure Trimmed (cs : List Char) : Prop where
  first : ∀ c ∈ cs.head?, blank c = false
  last : ∀ c ∈ cs.getLast?, blank c = false

theorem blank_head?_dropWhile (cs : List Char) :
    ∀ c ∈ (cs.dropWhile blank).head?, blank c = false := by
  intro c hc
  have h := List.head?_dropWhile_not blank cs
  rw [Option.mem_def.1 hc] at h
  exact h

theorem trimmed_trimChars (cs : List Char) : Trimmed (trimChars cs) where
  first := by
    intro c hc
    have hfront : trimChars cs <+: cs.dropWhile blank := by
      rw [trimChars, dropEndWhile, ← List.reverse_suffix, List.reverse_reverse]
      exact List.dropWhile_suffix _
    obtain ⟨rest, hrest⟩ := hfront
    refine blank_head?_dropWhile cs c ?_
    rw [← hrest, Option.mem_def, List.head?_append, Option.mem_def.1 hc]
    rfl
  last := by
    intro c hc
    rw [trimChars, dropEndWhile, List.getLast?_reverse] at hc
    exact blank_head?_dropWhile _ c hc

theorem Trimmed.trimChars_eq {cs : List Char} (h : Trimmed cs) : trimChars cs = cs := by
  by_cases hnil : cs = []
  · subst hnil
    rfl
  · simpa using trimChars_append [] cs [] (by simp) (by simp) hnil h.first h.last

end LspClient.Text
