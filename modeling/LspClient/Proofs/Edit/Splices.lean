import LspClient.Proofs.Edit.Boundary
import Mathlib.Data.List.Chain
import Mathlib.Data.List.Sort
import Mathlib.Tactic.SplitIfs

/-!
# Edits as splices, made from the last to the first

`applyEdits` walks over a text once and never makes the replacements it stands for. Here they are
made, on the bytes of the text: `Replacement.splice` puts one range in place, and
`replaceFromLast` does so for a list of them beginning with the last, so that a range still means
what it meant in the original text when its turn comes.

`applyEdits_spec` says that the two agree whenever the ranges, in the order of their starts, do not
run into one another, and that the walk refuses all others. The order is pinned down by
`StableOrder`, which leaves a list only one order to be in (`StableOrder.eq`).
-/

namespace LspClient

/-- A byte range of a text, and what is to stand in its place. -/
structure Replacement where
  start : Nat
  stop : Nat
  newText : List Char
  deriving DecidableEq

namespace Replacement

/-- Put one range of a text in place. -/
def splice (r : Replacement) (bytes : List UInt8) : List UInt8 :=
  bytes.take r.start ++ bytesOf r.newText ++ bytes.drop r.stop

/-- Every range starts at or behind the end of the one before it. -/
def Apart (rs : List Replacement) : Prop := rs.IsChain fun a b => a.stop ≤ b.start

end Replacement

open Replacement

/-- Put ranges in place one at a time, the last one first. -/
def replaceFromLast (bytes : List UInt8) (rs : List Replacement) : List UInt8 :=
  rs.foldr Replacement.splice bytes

def TextEdit.startIn (text : List Char) (e : TextEdit) : Nat := offsetAt text e.range.start

/-- The replacement that an edit of a text stands for. -/
def TextEdit.replacement (text : List Char) (e : TextEdit) : Replacement where
  start := e.startIn text
  stop := max (e.startIn text) (offsetAt text e.range.stop)
  newText := e.newText.toList

/-- `ordered` holds the members of `rs` in the order of their starts, those with one start in the
order in which they stand in `rs`. -/
structure StableOrder (rs ordered : List Replacement) : Prop where
  sorted : ordered.Pairwise fun a b => a.start ≤ b.start
  stable : ∀ n, ordered.filter (·.start = n) = rs.filter (·.start = n)

/-! ### The order is determined -/

namespace StableOrder
variable {rs ordered ordered' : List Replacement}

theorem head_le {r : Replacement} (h : (r :: ordered).Pairwise fun a b => a.start ≤ b.start) :
    ∀ a ∈ r :: ordered, r.start ≤ a.start := by
  intro a ha
  rcases List.mem_cons.1 ha with rfl | ha
  · exact Nat.le_refl _
  · exact (List.pairwise_cons.1 h).1 a ha

theorem eq_of_filters : ∀ {l l' : List Replacement},
    (l.Pairwise fun a b => a.start ≤ b.start) → (l'.Pairwise fun a b => a.start ≤ b.start) →
    (∀ n, l.filter (·.start = n) = l'.filter (·.start = n)) → l = l'
  | [], [], _, _, _ => rfl
  | [], b :: l', _, _, hf => by have := hf b.start; simp at this
  | a :: l, [], _, _, hf => by have := hf a.start; simp at this
  | a :: l, b :: l', hl, hl', hf => by
    have hmem : ∀ r, r ∈ a :: l ↔ r ∈ b :: l' := fun r => by
      have := congrArg (r ∈ ·) (hf r.start)
      simpa using this
    have hstart : a.start = b.start := Nat.le_antisymm
      (head_le hl b ((hmem b).2 (List.mem_cons_self ..)))
      (head_le hl' a ((hmem a).1 (List.mem_cons_self ..)))
    have hab : a = b := by
      have h := hf a.start
      rw [List.filter_cons_of_pos (by simp), List.filter_cons_of_pos (by simp [hstart])] at h
      exact (List.cons.inj h).1
    subst hab
    have htail : ∀ n, l.filter (·.start = n) = l'.filter (·.start = n) := fun n => by
      have h := hf n
      simp only [List.filter_cons] at h
      split_ifs at h
      · exact (List.cons.inj h).2
      · exact h
    rw [eq_of_filters (List.pairwise_cons.1 hl).2 (List.pairwise_cons.1 hl').2 htail]

theorem eq (h : StableOrder rs ordered) (h' : StableOrder rs ordered') : ordered = ordered' :=
  eq_of_filters h.sorted h'.sorted fun n => (h.stable n).trans (h'.stable n).symm

end StableOrder

/-! ### The order of the walk -/

def Splice.replacement (s : Splice) : Replacement := ⟨s.start, s.stop, s.newText⟩

theorem map_replacement_resolve (text : List Char) (edits : List TextEdit) :
    (resolve text edits).map Splice.replacement = edits.map (TextEdit.replacement text) := by
  have h : (resolve text edits).map Splice.replacement =
      edits.zipIdx.map (TextEdit.replacement text ∘ Prod.fst) := by
    simp only [resolve, List.map_map]
    rfl
  rw [h, ← List.map_map, List.zipIdx_map_fst]

theorem pairwise_index_resolve (text : List Char) (edits : List TextEdit) :
    (resolve text edits).Pairwise fun a b => a.index < b.index := by
  rw [resolve, List.pairwise_map]
  have : (edits.zipIdx.map Prod.snd).Pairwise (· < ·) := by
    rw [List.zipIdx_map_snd]
    exact List.pairwise_lt_range'
  exact List.pairwise_map.1 this

theorem Splice.before_trans (a b c : Splice) (hab : a.before b) (hbc : b.before c) :
    a.before c := by
  simp only [Splice.before, Bool.or_eq_true, Bool.and_eq_true, decide_eq_true_eq, beq_iff_eq] at *
  omega

theorem Splice.before_total (a b : Splice) : (a.before b || b.before a) = true := by
  simp only [Splice.before, Bool.or_eq_true, Bool.and_eq_true, decide_eq_true_eq, beq_iff_eq]
  omega

theorem Splice.start_le_of_before {a b : Splice} (h : a.before b) : a.start ≤ b.start := by
  simp only [Splice.before, Bool.or_eq_true, Bool.and_eq_true, decide_eq_true_eq, beq_iff_eq] at h
  omega

theorem Splice.index_le_of_before {a b : Splice} (h : a.before b) (hs : a.start = b.start) :
    a.index ≤ b.index := by
  simp only [Splice.before, Bool.or_eq_true, Bool.and_eq_true, decide_eq_true_eq, beq_iff_eq] at h
  omega

theorem pairwise_sortSplices (splices : List Splice) :
    (sortSplices splices).Pairwise fun a b => a.before b :=
  List.pairwise_mergeSort Splice.before_trans Splice.before_total splices

/-- Sorting by start and place does not change the order of splices with one start. -/
theorem filter_sortSplices {splices : List Splice}
    (hidx : splices.Pairwise fun a b => a.index < b.index) (n : Nat) :
    (sortSplices splices).filter (·.start = n) = splices.filter (·.start = n) := by
  have hsorted : ((sortSplices splices).filter (·.start = n)).Pairwise
      fun a b => a.index ≤ b.index := by
    refine ((pairwise_sortSplices splices).sublist List.filter_sublist).imp_of_mem ?_
    intro a b ha hb hab
    have ha' : a.start = n := by simpa using (List.mem_filter.1 ha).2
    have hb' : b.start = n := by simpa using (List.mem_filter.1 hb).2
    exact Splice.index_le_of_before hab (ha'.trans hb'.symm)
  have horig : (splices.filter (·.start = n)).Pairwise fun a b => a.index ≤ b.index :=
    (hidx.sublist List.filter_sublist).imp Nat.le_of_lt
  refine List.Perm.eq_of_pairwise ?_ hsorted horig ((List.mergeSort_perm splices _).filter _)
  intro a b ha hb hab hba
  have hnodup : (splices.map Splice.index).Nodup :=
    List.pairwise_map.2 (hidx.imp Nat.ne_of_lt)
  exact List.inj_on_of_nodup_map hnodup (List.mem_mergeSort.1 (List.mem_filter.1 ha).1)
    (List.mem_filter.1 hb).1 (Nat.le_antisymm hab hba)

/-- The replacements of edits in the order in which the walk makes them. -/
def orderedReplacements (text : List Char) (edits : List TextEdit) : List Replacement :=
  (sortSplices (resolve text edits)).map Splice.replacement

theorem stableOrder_orderedReplacements (text : List Char) (edits : List TextEdit) :
    StableOrder (edits.map (TextEdit.replacement text)) (orderedReplacements text edits) where
  sorted := List.pairwise_map.2
    ((pairwise_sortSplices _).imp fun h => Splice.start_le_of_before h)
  stable n := by
    rw [orderedReplacements, ← map_replacement_resolve, List.filter_map, List.filter_map]
    exact congrArg _ (filter_sortSplices (pairwise_index_resolve text edits) n)

/-! ### The walk -/

section Walk
variable {text : List Char}

/-- A replacement of a text between two of its boundaries. -/
structure Replacement.Fits (text : List Char) (r : Replacement) : Prop where
  start_le_stop : r.start ≤ r.stop
  start : IsBoundary text r.start
  stop : IsBoundary text r.stop

theorem fits_replacement (text : List Char) (e : TextEdit) : (e.replacement text).Fits text where
  start_le_stop := Nat.le_max_left ..
  start := isBoundary_offsetAt ..
  stop := by
    show IsBoundary text (max (e.startIn text) (offsetAt text e.range.stop))
    rcases Nat.le_total (e.startIn text) (offsetAt text e.range.stop) with h | h
    · rw [Nat.max_eq_right h]; exact isBoundary_offsetAt ..
    · rw [Nat.max_eq_left h]; exact isBoundary_offsetAt ..

/-- What lies before the first range is left as it was. -/
theorem take_replaceFromLast {rs : List Replacement} {bytes : List UInt8} {n : Nat}
    (hfits : ∀ r ∈ rs, r.start ≤ r.stop ∧ r.stop ≤ bytes.length)
    (hn : ∀ r ∈ rs.head?, n ≤ r.start) (hapart : Apart rs) :
    (replaceFromLast bytes rs).take n = bytes.take n := by
  induction rs generalizing n with
  | nil => rfl
  | cons r rs ih =>
    obtain ⟨hnext, hrest⟩ := List.isChain_cons.1 hapart
    have hr := hfits r (List.mem_cons_self ..)
    have hn' : n ≤ r.start := hn r rfl
    have hkept := ih (fun s hs => hfits s (List.mem_cons_of_mem _ hs)) hnext hrest
    have hlen : r.stop ≤ (replaceFromLast bytes rs).length := by
      have := congrArg List.length hkept
      simp only [List.length_take] at this
      omega
    calc (replaceFromLast bytes (r :: rs)).take n
        = ((replaceFromLast bytes rs).take r.start).take n := by
          show (r.splice (replaceFromLast bytes rs)).take n = _
          rw [Replacement.splice, List.append_assoc, List.take_append_of_le_length]
          rw [List.length_take]
          omega
      _ = ((replaceFromLast bytes rs).take r.stop).take n := by
          rw [List.take_take, List.take_take]
          congr 1
          omega
      _ = bytes.take n := by
          rw [hkept, List.take_take]
          congr 1
          omega

/-- One turn of the walk: the text is kept up to the range, and the range is passed over. -/
theorem copyFrom_cons {done rest : List Char} {s : Splice} (splices : List Splice)
    (htext : text = done ++ rest) (hs : s.replacement.Fits text)
    (hle : byteLength done ≤ s.start) :
    ∃ kept gone left, text = done ++ kept ++ gone ++ left ∧
      byteLength (done ++ kept) = s.start ∧ byteLength (done ++ kept ++ gone) = s.stop ∧
      copyFrom (byteLength done) rest (s :: splices) =
        (copyFrom s.stop left splices).map fun out => kept ++ s.newText ++ out := by
  have hord : s.start ≤ s.stop := hs.start_le_stop
  have hstart : IsBoundary (done ++ rest) s.start := htext ▸ hs.start
  obtain ⟨kept, behind, rfl, hkept⟩ := hstart.of_append hle
  have hlen : byteLength (done ++ kept) = s.start := by rw [byteLength_append]; omega
  have hstop : IsBoundary (done ++ kept ++ behind) s.stop := by
    rw [List.append_assoc, ← htext]; exact hs.stop
  obtain ⟨gone, left, rfl, hgone⟩ := hstop.of_append (by rw [hlen]; exact hord)
  rw [hlen] at hgone
  have hcut : ¬ s.start < byteLength done := Nat.not_lt.2 hle
  refine ⟨kept, gone, left, by rw [htext]; simp, hlen, ?_, ?_⟩
  · rw [byteLength_append, hlen]; omega
  · rw [copyFrom, if_neg hcut, ← hkept, splitBytes_append]
    simp only [← hgone, splitBytes_append]

theorem apart_cons (s : Splice) (splices : List Splice) :
    Apart ((s :: splices).map Splice.replacement) ↔
      (∀ t ∈ splices.head?, s.stop ≤ t.start) ∧ Apart (splices.map Splice.replacement) := by
  rw [Apart, List.map_cons, List.isChain_cons, List.head?_map]
  simp [Apart, Splice.replacement]

/-- The walk goes through exactly when the ranges lie apart from the cursor on. -/
theorem exists_copyFrom_ok_iff {done rest : List Char} {splices : List Splice}
    (htext : text = done ++ rest) (hfits : ∀ s ∈ splices, s.replacement.Fits text) :
    (∃ out, copyFrom (byteLength done) rest splices = .ok out) ↔
      (∀ s ∈ splices.head?, byteLength done ≤ s.start) ∧
        Apart (splices.map Splice.replacement) := by
  -- by induction on the edits, with the part of the text that is copied so far
  induction splices generalizing done rest with
  | nil => simp [copyFrom, Apart]
  | cons s splices ih =>
    by_cases hle : byteLength done ≤ s.start
    · obtain ⟨kept, gone, left, htext', -, hstop, hstep⟩ :=
        copyFrom_cons splices htext (hfits s (List.mem_cons_self ..)) hle
      have ih := ih htext' fun t ht => hfits t (List.mem_cons_of_mem _ ht)
      rw [hstop] at ih
      rw [apart_cons, ← ih, hstep]
      constructor
      · rintro ⟨out, h⟩
        refine ⟨fun t ht => ?_, ?_⟩
        · obtain rfl : s = t := by simpa using ht
          exact hle
        · cases hc : copyFrom s.stop left splices with
          | error e => rw [hc] at h; cases h
          | ok o => exact ⟨o, rfl⟩
      · rintro ⟨-, o, h⟩
        exact ⟨_, by rw [h]; rfl⟩
    · constructor
      · rintro ⟨out, h⟩
        rw [copyFrom, if_pos (Nat.not_le.1 hle)] at h
        cases h
      · rintro ⟨h, -⟩
        exact absurd (h s rfl) hle

/-- The walk copies what the splices leave behind the cursor. -/
theorem bytesOf_copyFrom {done rest out : List Char} {splices : List Splice}
    (htext : text = done ++ rest) (hfits : ∀ s ∈ splices, s.replacement.Fits text)
    (h : copyFrom (byteLength done) rest splices = .ok out) :
    bytesOf out = (replaceFromLast (bytesOf text) (splices.map Splice.replacement)).drop
      (byteLength done) := by
  induction splices generalizing done rest out with
  | nil =>
    obtain rfl : rest = out := by simpa [copyFrom] using h
    show bytesOf rest = (bytesOf text).drop (byteLength done)
    rw [htext, bytesOf_append, ← length_bytesOf, List.drop_left]
  | cons s splices ih =>
    have hfits' : ∀ t ∈ splices, t.replacement.Fits text :=
      fun t ht => hfits t (List.mem_cons_of_mem _ ht)
    obtain ⟨hfirst, hapart⟩ := (exists_copyFrom_ok_iff htext hfits).1 ⟨out, h⟩
    obtain ⟨kept, gone, left, htext', hstart, hstop, hstep⟩ :=
      copyFrom_cons splices htext (hfits s (List.mem_cons_self ..)) (hfirst s rfl)
    rw [hstep] at h
    cases hc : copyFrom s.stop left splices with
    | error e => rw [hc] at h; cases h
    | ok o =>
      rw [hc] at h
      obtain rfl : kept ++ s.newText ++ o = out := by simpa [Except.map] using h
      have ho := ih htext' hfits' (by rw [hstop]; exact hc)
      obtain ⟨hnext, hrest⟩ := (apart_cons s splices).1 hapart
      set after := replaceFromLast (bytesOf text) (splices.map Splice.replacement) with hafter
      -- the edits behind this one leave all before its start as it is
      have hbefore : after.take s.start = bytesOf (done ++ kept) := by
        rw [hafter, take_replaceFromLast (fun r hr => ?_) (fun r hr => ?_) hrest]
        · rw [htext', List.append_assoc, bytesOf_append, ← hstart, ← length_bytesOf,
            List.take_left]
        · obtain ⟨t, ht, rfl⟩ := List.mem_map.1 hr
          exact ⟨(hfits' t ht).start_le_stop, by rw [length_bytesOf]; exact (hfits' t ht).stop.le⟩
        · obtain ⟨t, ht, rfl⟩ : ∃ t ∈ splices.head?, t.replacement = r := by
            simpa [List.head?_map] using hr
          exact Nat.le_trans (hfits s (List.mem_cons_self ..)).start_le_stop (hnext t ht)
      calc bytesOf (kept ++ s.newText ++ o)
          = bytesOf kept ++ bytesOf s.newText ++ after.drop s.stop := by
            rw [bytesOf_append, bytesOf_append, ho, hstop]
        _ = (bytesOf (done ++ kept) ++ bytesOf s.newText ++ after.drop s.stop).drop
              (byteLength done) := by
            rw [bytesOf_append, ← length_bytesOf, List.append_assoc, List.append_assoc,
              List.append_assoc, List.drop_left]
        _ = (s.replacement.splice after).drop (byteLength done) := by
            rw [← hbefore]; rfl

end Walk

/-! ### The result of edits -/

theorem applyEdits_ok_iff (text : String) (edits : List TextEdit) (out : String) :
    applyEdits text edits = .ok out ↔ applyChars text.toList edits = .ok out.toList := by
  unfold applyEdits
  cases applyChars text.toList edits with
  | error e => simp [Except.map]
  | ok o =>
    simp only [Except.map, Except.ok.injEq]
    exact ⟨fun h => by rw [← h]; simp, fun h => by rw [h]; simp⟩

theorem fits_of_mem_sortSplices {text : List Char} {edits : List TextEdit} :
    ∀ s ∈ sortSplices (resolve text edits), s.replacement.Fits text := by
  intro s hs
  have hmem : s.replacement ∈ edits.map (TextEdit.replacement text) := by
    rw [← map_replacement_resolve]
    exact List.mem_map_of_mem (List.mem_mergeSort.1 hs)
  obtain ⟨e, -, he⟩ := List.mem_map.1 hmem
  exact he ▸ fits_replacement text e

theorem applyChars_ok_iff (text : List Char) (edits : List TextEdit) :
    (∃ out, applyChars text edits = .ok out) ↔ Apart (orderedReplacements text edits) := by
  have h : (∃ out, applyChars text edits = .ok out) ↔ _ :=
    exists_copyFrom_ok_iff (List.nil_append text).symm fits_of_mem_sortSplices
  rw [h]
  exact and_iff_right fun s _ => Nat.zero_le _

theorem bytesOf_applyChars {text out : List Char} {edits : List TextEdit}
    (h : applyChars text edits = .ok out) :
    bytesOf out = replaceFromLast (bytesOf text) (orderedReplacements text edits) :=
  bytesOf_copyFrom (List.nil_append text).symm fits_of_mem_sortSplices h

/-- The walk does not look at the places of the splices, but for its complaint. -/
theorem copyFrom_toOption_congr : ∀ {splices splices' : List Splice} (cursor : Nat)
    (rest : List Char), splices.map Splice.replacement = splices'.map Splice.replacement →
    (copyFrom cursor rest splices).toOption = (copyFrom cursor rest splices').toOption
  | [], [], _, _, _ => rfl
  | [], _ :: _, _, _, h => by simp at h
  | _ :: _, [], _, _, h => by simp at h
  | s :: splices, s' :: splices', cursor, rest, h => by
    obtain ⟨hs, hrest⟩ := List.cons.inj h
    obtain ⟨hstart, hstop, hnew⟩ : s.start = s'.start ∧ s.stop = s'.stop ∧
        s.newText = s'.newText := by simpa [Splice.replacement] using hs
    have ih := copyFrom_toOption_congr s'.stop
      (splitBytes (s'.stop - s'.start) (splitBytes (s'.start - cursor) rest).2).2 hrest
    simp only [copyFrom, hstart, hstop, hnew]
    split_ifs
    · rfl
    · revert ih
      cases copyFrom s'.stop (splitBytes (s'.stop - s'.start)
          (splitBytes (s'.start - cursor) rest).2).2 splices <;>
        cases copyFrom s'.stop (splitBytes (s'.stop - s'.start)
          (splitBytes (s'.start - cursor) rest).2).2 splices' <;>
        simp [Except.toOption, Except.map]

/-- Two lists of edits hold the same edits, and those with one start in the same order. -/
def SameButForTies (text : List Char) (edits edits' : List TextEdit) : Prop :=
  ∀ n, edits'.filter (fun e => e.startIn text = n) = edits.filter (fun e => e.startIn text = n)

theorem sameButForTies_swap {text : List Char} {a b : TextEdit}
    (h : a.startIn text ≠ b.startIn text) : SameButForTies text [a, b] [b, a] := by
  intro n
  by_cases ha : a.startIn text = n
  · have hb : b.startIn text ≠ n := fun hb => h (ha.trans hb.symm)
    simp [ha, hb]
  · by_cases hb : b.startIn text = n <;> simp [ha, hb]

theorem orderedReplacements_congr {text : List Char} {edits edits' : List TextEdit}
    (h : SameButForTies text edits edits') :
    orderedReplacements text edits' = orderedReplacements text edits := by
  refine (stableOrder_orderedReplacements text edits').eq
    ⟨(stableOrder_orderedReplacements text edits).sorted, fun n => ?_⟩
  rw [(stableOrder_orderedReplacements text edits).stable, List.filter_map, List.filter_map]
  exact congrArg _ (h n).symm

/-- Edits are accepted when their ranges lie apart in the order of their starts, and then make the
text that replacing the ranges one at a time from the last to the first makes; the order in which
they are listed matters for edits with one start only. -/
theorem applyEdits_spec (text : String) (edits : List TextEdit) :
    ∃ ordered, StableOrder (edits.map (TextEdit.replacement text.toList)) ordered ∧
      ((∃ out, applyEdits text edits = .ok out) ↔ Apart ordered) ∧
      (∀ out, applyEdits text edits = .ok out →
        Utf8.encode out = replaceFromLast (Utf8.encode text) ordered) ∧
      ∀ edits', SameButForTies text.toList edits edits' →
        (applyEdits text edits').toOption = (applyEdits text edits).toOption := by
  refine ⟨orderedReplacements text.toList edits, stableOrder_orderedReplacements _ _, ?_, ?_, ?_⟩
  · rw [← applyChars_ok_iff]
    constructor
    · rintro ⟨out, h⟩
      exact ⟨out.toList, (applyEdits_ok_iff text edits out).1 h⟩
    · rintro ⟨out, h⟩
      exact ⟨String.ofList out, (applyEdits_ok_iff text edits _).2 (by rw [h]; simp)⟩
  · intro out h
    exact bytesOf_applyChars ((applyEdits_ok_iff text edits out).1 h)
  · intro edits' h
    have hchars : (applyChars text.toList edits').toOption =
        (applyChars text.toList edits).toOption :=
      copyFrom_toOption_congr 0 text.toList (orderedReplacements_congr h)
    revert hchars
    unfold applyEdits
    cases applyChars text.toList edits' <;> cases applyChars text.toList edits <;>
      simp +contextual [Except.toOption, Except.map]

/-- Two ranges that touch, listed either way: the first character, of two bytes, is replaced, and
something is put behind it. -/
theorem applyEdits_spec_touching :
    let replaced : TextEdit := ⟨⟨⟨0, 0⟩, ⟨0, 1⟩⟩, "y"⟩
    let added : TextEdit := ⟨⟨⟨0, 1⟩, ⟨0, 1⟩⟩, "x"⟩
    SameButForTies "éa".toList [replaced, added] [added, replaced] ∧
      (applyEdits "éa" [added, replaced]).toOption = some "yxa" := by
  intro replaced added
  have hties : SameButForTies "éa".toList [replaced, added] [added, replaced] :=
    sameButForTies_swap (by decide)
  obtain ⟨-, -, -, -, hsame⟩ := applyEdits_spec "éa" [replaced, added]
  have hsorted : sortSplices (resolve "éa".toList [replaced, added]) =
      resolve "éa".toList [replaced, added] := List.mergeSort_of_pairwise (by decide)
  have hlisted : (applyEdits "éa" [replaced, added]).toOption = some "yxa" := by
    rw [applyEdits, applyChars, hsorted]
    decide +kernel
  exact ⟨hties, (hsame _ hties).trans hlisted⟩

end LspClient
