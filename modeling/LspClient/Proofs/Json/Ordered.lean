import LspClient.Json.Decode
import LspClient.Json.Parser
import LspClient.Table
import Mathlib.Data.List.Forall2
import Mathlib.Data.String.Basic

/-!
# Objects with their keys in order

A value is ordered if in every object of it the keys ascend. A list of entries into which another
is put stays in order (`ascends_insertEntry`), so whatever is parsed is ordered
(`ordered_of_parseBytes`), and so are the parts out of which a decoder builds a record
(`ordered_of_record`): these are the members of a value, be that an object or an array
(`build_of_record`). A list is read item by item, and an integer as it is written.
-/

namespace LspClient.Json

/-! ### Ordered values -/

def Ascends {α : Type} (entries : List (String × α)) : Prop :=
  entries.Pairwise fun a b => a.1 < b.1

mutual
def Ordered : Json → Prop
  | .arr items => OrderedItems items
  | .obj entries => Ascends entries ∧ OrderedEntries entries
  | _ => True

def OrderedItems : List Json → Prop
  | [] => True
  | v :: rest => v.Ordered ∧ OrderedItems rest

def OrderedEntries : List (String × Json) → Prop
  | [] => True
  | (_, v) :: rest => v.Ordered ∧ OrderedEntries rest
end

theorem orderedItems_iff {items : List Json} : OrderedItems items ↔ ∀ v ∈ items, v.Ordered := by
  induction items with
  | nil => simp [OrderedItems]
  | cons v rest ih => simp [OrderedItems, ih]

theorem orderedEntries_iff {entries : List (String × Json)} :
    OrderedEntries entries ↔ ∀ e ∈ entries, e.2.Ordered := by
  induction entries with
  | nil => simp [OrderedEntries]
  | cons e rest ih => simp [OrderedEntries, ih]

theorem ordered_obj {entries : List (String × Json)} :
    (Json.obj entries).Ordered ↔ Ascends entries ∧ ∀ e ∈ entries, e.2.Ordered := by
  rw [Ordered, orderedEntries_iff]

theorem ordered_arr {items : List Json} : (Json.arr items).Ordered ↔ ∀ v ∈ items, v.Ordered := by
  rw [Ordered, orderedItems_iff]

/-! ### Objects that are built -/

theorem mem_insertEntry {α : Type} {key : String} {value : α} {entries : List (String × α)}
    {e : String × α} (h : e ∈ insertEntry key value entries) : e = (key, value) ∨ e ∈ entries := by
  induction entries with
  | nil => exact .inl (List.mem_singleton.1 h)
  | cons e' rest ih =>
    obtain ⟨k, v⟩ := e'
    rw [insertEntry] at h
    split at h
    · exact (List.mem_cons.1 h).imp_right fun h => List.mem_cons_of_mem _ h
    · split at h
      · exact List.mem_cons.1 h
      · rcases List.mem_cons.1 h with rfl | h
        · exact .inr (List.mem_cons_self ..)
        · exact (ih h).imp_right fun h => List.mem_cons_of_mem _ h

theorem ascends_insertEntry {α : Type} (key : String) (value : α) {entries : List (String × α)}
    (h : Ascends entries) : Ascends (insertEntry key value entries) := by
  induction entries with
  | nil => exact List.pairwise_singleton _ _
  | cons e rest ih =>
    obtain ⟨k, v⟩ := e
    obtain ⟨hk, hrest⟩ := List.pairwise_cons.1 h
    rw [insertEntry]
    split
    · next heq =>
      subst heq
      exact List.pairwise_cons.2 ⟨hk, hrest⟩
    · next hne =>
      split
      · next hlt =>
        refine List.pairwise_cons.2 ⟨fun e he => ?_, h⟩
        rcases List.mem_cons.1 he with rfl | he
        · exact hlt
        · exact lt_trans hlt (hk e he)
      · next hle =>
        refine List.pairwise_cons.2 ⟨fun e he => ?_, ih hrest⟩
        rcases mem_insertEntry he with rfl | he
        · exact lt_of_le_of_ne (not_lt.1 hle) (Ne.symm hne)
        · exact hk e he

theorem mem_of_mem_sortEntries {α : Type} {entries : List (String × α)} {e : String × α}
    (h : e ∈ sortEntries entries) : e ∈ entries := by
  have hfold (l acc : List (String × α))
      (hmem : e ∈ l.foldl (fun acc e => insertEntry e.1 e.2 acc) acc) : e ∈ l ∨ e ∈ acc := by
    induction l generalizing acc with
    | nil => exact .inr hmem
    | cons e' l ih =>
      rcases ih _ hmem with hmem | hmem
      · exact .inl (List.mem_cons_of_mem _ hmem)
      · rcases mem_insertEntry hmem with rfl | hmem
        · exact .inl (List.mem_cons_self ..)
        · exact .inr hmem
  rcases hfold entries [] h with hmem | hmem
  · exact hmem
  · cases hmem

theorem lookup_insertEntry (k : String) (v : Json) (l : List (String × Json)) (k' : String) :
    (insertEntry k v l).lookup k' = if k' = k then some v else l.lookup k' := by
  induction l with
  | nil => rw [insertEntry, Table.lookup_cons]
  | cons e l ih =>
    obtain ⟨k'', v'⟩ := e
    rw [insertEntry]
    split
    · next heq =>
      subst heq
      rw [Table.lookup_cons, Table.lookup_cons]
      split <;> rfl
    · split
      · rw [Table.lookup_cons]
      · next hne _ =>
        rw [Table.lookup_cons, Table.lookup_cons, ih]
        by_cases h : k' = k
        · rw [if_pos h, if_pos h, if_neg (h ▸ hne)]
        · rw [if_neg h, if_neg h]

/-- A member of an object that is built is the last entry of its key. -/
theorem get?_object (es : List (String × Json)) (k : String) :
    (object es).get? k = es.reverse.lookup k := by
  have hfold (acc : List (String × Json)) :
      (es.foldl (fun acc e => insertEntry e.1 e.2 acc) acc).lookup k =
        (es.reverse ++ acc).lookup k := by
    induction es generalizing acc with
    | nil => rfl
    | cons e es ih =>
      rw [List.foldl_cons, ih, List.reverse_cons, List.append_assoc, List.singleton_append,
        List.lookup_append, List.lookup_append, lookup_insertEntry, Table.lookup_cons]
  have h := hfold []
  rwa [List.append_nil] at h

/-! ### Values that are parsed -/

/-- What a parser of values yields is ordered. -/
def Orders (element : List Char → Option (Json × List Char)) : Prop :=
  ∀ cs v rest, element cs = some (v, rest) → v.Ordered

theorem ordered_of_items {element : List Char → Option (Json × List Char)} (h : Orders element)
    {fuel : Nat} {acc xs : List Json} {cs rest : List Char}
    (hacc : ∀ v ∈ acc, v.Ordered) (hxs : items element fuel acc cs = some (xs, rest)) :
    ∀ v ∈ xs, v.Ordered := by
  induction fuel generalizing acc cs with
  | zero => cases hxs
  | succ fuel ih =>
    rw [items] at hxs
    split at hxs
    · cases hxs
    next v rest' hv =>
    have hnext : ∀ w ∈ v :: acc, w.Ordered := by
      intro w hw
      rcases List.mem_cons.1 hw with rfl | hw
      · exact h _ _ _ hv
      · exact hacc w hw
    split at hxs
    · exact ih hnext hxs
    · cases hxs
      exact fun w hw => hnext w (List.mem_reverse.1 hw)
    · cases hxs

theorem ordered_of_members {element : List Char → Option (Json × List Char)} (h : Orders element)
    {fuel left : Nat} {acc es : List (String × Json)} {cs rest : List Char}
    (hacc : (Json.obj acc).Ordered) (hes : members fuel element left acc cs = some (es, rest)) :
    (Json.obj es).Ordered := by
  induction left generalizing acc cs with
  | zero => cases hes
  | succ left ih =>
    rw [members] at hes
    split at hes <;> try cases hes
    split at hes <;> try cases hes
    next key _ _ =>
    split at hes <;> try cases hes
    split at hes <;> try cases hes
    next v _ hv =>
    have hnext : (Json.obj (insertEntry key v acc)).Ordered := by
      obtain ⟨hasc, hall⟩ := ordered_obj.1 hacc
      refine ordered_obj.2 ⟨ascends_insertEntry key v hasc, fun e he => ?_⟩
      rcases mem_insertEntry he with rfl | he
      · exact h _ _ _ hv
      · exact hall e he
    split at hes
    · exact ih hnext hes
    · cases hes
      exact hnext
    · cases hes

theorem orders_value (fuel depth : Nat) : Orders (value fuel depth) := by
  -- by induction on the depth, which is what a list or a table spends on its values
  induction depth with
  | zero =>
    intro cs v rest h
    rw [value] at h
    split at h
    case h_5 | h_6 => cases h
    all_goals
      obtain ⟨_, -, heq⟩ := Option.map_eq_some_iff.1 h
      cases heq
      trivial
  | succ depth ih =>
    intro cs v rest h
    rw [value] at h
    split at h
    case h_5 =>
      rcases depth with _ | depth
      · cases h
      dsimp only at h
      split at h
      · cases h
        exact ordered_arr.2 nofun
      · obtain ⟨⟨xs, _⟩, hxs, heq⟩ := Option.map_eq_some_iff.1 h
        cases heq
        refine ordered_arr.2 (ordered_of_items ih ?_ hxs)
        nofun
    case h_6 =>
      rcases depth with _ | depth
      · cases h
      dsimp only at h
      have hempty : (Json.obj []).Ordered := ordered_obj.2 ⟨.nil, nofun⟩
      split at h
      · cases h
        exact hempty
      · obtain ⟨⟨es, _⟩, hes, heq⟩ := Option.map_eq_some_iff.1 h
        cases heq
        exact ordered_of_members ih hempty hes
    all_goals
      obtain ⟨_, -, heq⟩ := Option.map_eq_some_iff.1 h
      cases heq
      trivial

theorem ordered_of_parseChars {cs : List Char} {v : Json} (h : parseChars cs = some v) :
    v.Ordered := by
  unfold parseChars at h
  split at h
  · next hv =>
    split at h
    · cases h
      exact orders_value _ _ _ _ _ hv
    · cases h
  · cases h

theorem ordered_of_parseBytes {bytes : List UInt8} {v : Json} (h : parseBytes bytes = some v) :
    v.Ordered := by
  obtain ⟨cs, -, hcs⟩ := Option.bind_eq_some_iff.1 h
  exact ordered_of_parseChars hcs

/-! ### What decoders read -/

section Reads

theorem of_bind_ok {ε α β : Type} {x : Except ε α} {f : α → Except ε β} {b : β}
    (h : (x >>= f) = .ok b) : ∃ a, x = .ok a ∧ f a = .ok b := by
  cases x with
  | error e => cases h
  | ok a => exact ⟨a, rfl, h⟩

theorem of_map_ok {ε α β : Type} {x : Except ε α} {f : α → β} {b : β}
    (h : x.map f = .ok b) : ∃ a, x = .ok a ∧ f a = b := by
  cases x with
  | error e => cases h
  | ok a => exact ⟨a, rfl, Except.ok.inj h⟩

variable {α : Type} {v : Json} {d : Decoder α} {a : α} {name : String}

/-- The member `key` of a record with members of these names. -/
def member? (names : List String) (key : String) : Json → Option Json
  | .obj entries => entries.lookup key
  | .arr items => (names.zip items).lookup key
  | _ => none

theorem build_of_record {fields : List Member} {build : Members → Except DecodeError α}
    (h : record name fields build v = .ok a) :
    build (fun key => v.member? (fields.map Member.name) key) = .ok a := by
  cases v with
  | obj entries =>
    obtain ⟨_, -, hbuild⟩ := of_bind_ok h
    exact hbuild
  | arr items =>
    obtain ⟨_, -, hbuild⟩ := of_bind_ok h
    exact hbuild
  | null | bool _ | num _ | str _ => cases h

/-- A record is built from an object by its members, if there is nothing wrong with these. -/
theorem record_object {fields : List Member} {build : Members → Except DecodeError α}
    {entries : List (String × Json)} (h : ∀ e ∈ entries, checkEntry fields e = .ok ()) :
    record name fields build (object entries) = build fun key => entries.reverse.lookup key := by
  have hchecked (l : List (String × Json)) (hl : ∀ e ∈ l, e ∈ entries) :
      l.forM (checkEntry fields) = .ok () := by
    induction l with
    | nil => rfl
    | cons e l ih =>
      have he : checkEntry fields e = .ok () := h e (hl e (List.mem_cons_self ..))
      show (checkEntry fields e >>= fun _ => l.forM (checkEntry fields)) = .ok ()
      rw [he]
      exact ih fun e' he' => hl e' (List.mem_cons_of_mem _ he')
  have hlookup : (fun key => (sortEntries entries).lookup key) =
      fun key => entries.reverse.lookup key := funext fun key => get?_object entries key
  rw [object, record, hchecked _ fun _ he => mem_of_mem_sortEntries he, hlookup]
  rfl

theorem exists_of_required {ms : Members} (h : ms.required name d = .ok a) :
    ∃ v, ms name = some v ∧ d v = .ok a := by
  unfold Members.required at h
  split at h
  · next v hv => exact ⟨v, hv, h⟩
  · cases h

theorem exists_of_optional {ms : Members} (h : ms.optional name d = .ok (some a)) :
    ∃ v, ms name = some v ∧ d v = .ok a := by
  unfold Members.optional Members.withDefault at h
  split at h
  · next v hv =>
    unfold Decoder.nullable at h
    split at h
    · cases h
    · obtain ⟨b, hb, hsome⟩ := of_map_ok h
      cases hsome
      exact ⟨v, hv, hb⟩
  · cases h

theorem eq_of_integer {kind : String} {low high n : Int}
    (h : Decoder.integer kind low high v = .ok n) :
    v = .num (.int n) ∧ low ≤ n ∧ n ≤ high := by
  unfold Decoder.integer at h
  split at h
  · split at h
    · next hbounds =>
      cases h
      exact ⟨rfl, hbounds⟩
    · cases h
  · cases h

theorem eq_of_word32 {n : Nat} (h : Decoder.word32 v = .ok n) :
    v = .num (.int n) ∧ n < 4294967296 := by
  obtain ⟨m, hm, rfl⟩ := of_map_ok h
  obtain ⟨rfl, hlow, hhigh⟩ := eq_of_integer hm
  rw [Int.toNat_of_nonneg hlow]
  exact ⟨rfl, by omega⟩

theorem forall₂_of_list {as : List α} (h : Decoder.list d v = .ok as) :
    ∃ items, v = .arr items ∧ List.Forall₂ (fun item a => d item = .ok a) items as := by
  unfold Decoder.list at h
  split at h
  · next items =>
    refine ⟨items, rfl, ?_⟩
    induction items generalizing as with
    | nil =>
      cases h
      exact .nil
    | cons item items ih =>
      rw [List.mapM_cons] at h
      obtain ⟨a, ha, h⟩ := of_bind_ok h
      obtain ⟨as', has', h⟩ := of_bind_ok h
      cases h
      exact .cons ha (ih has')
  · cases h

end Reads

/-! ### Parts of values -/

theorem ordered_of_get? {key : String} {v w : Json} (h : v.get? key = some w) (hv : v.Ordered) :
    w.Ordered := by
  cases v with
  | obj entries =>
    obtain ⟨_, _, rfl, -⟩ := List.lookup_eq_some_iff.1 h
    exact (ordered_obj.1 hv).2 (key, w) (by simp)
  | null | bool _ | num _ | str _ | arr _ => cases h

theorem keys_of_table {α : Type} {d : Decoder α} {entries : List (String × Json)}
    {l : List (String × α)} (h : Decoder.table d (.obj entries) = .ok l) :
    l.map Prod.fst = entries.map Prod.fst := by
  change entries.mapM _ = Except.ok l at h
  induction entries generalizing l with
  | nil =>
    cases h
    rfl
  | cons e rest ih =>
    obtain ⟨key, v⟩ := e
    rw [List.mapM_cons] at h
    obtain ⟨entry, hentry, h⟩ := of_bind_ok h
    obtain ⟨l', hl', h⟩ := of_bind_ok h
    cases h
    obtain ⟨a, -, rfl⟩ := of_map_ok hentry
    rw [List.map_cons, List.map_cons, ih hl']

theorem ordered_of_member {names : List String} {key : String} {v w : Json}
    (h : v.member? names key = some w) (hv : v.Ordered) : w.Ordered := by
  cases v with
  | obj entries => exact ordered_of_get? (v := .obj entries) h hv
  | arr items =>
    obtain ⟨_, _, hzip, -⟩ := List.lookup_eq_some_iff.1 h
    have hmem : (key, w) ∈ names.zip items := by
      rw [hzip]
      simp
    exact ordered_arr.1 hv w (List.of_mem_zip hmem).2
  | null | bool _ | num _ | str _ => cases h

theorem ordered_of_record {α : Type} {name : String} {fields : List Member}
    {build : Members → Except DecodeError α} {v : Json} {a : α}
    (h : record name fields build v = .ok a) (hv : v.Ordered) :
    ∃ ms : Members, build ms = .ok a ∧ ∀ key w, ms key = some w → w.Ordered :=
  ⟨_, build_of_record h, fun _ _ hw => ordered_of_member hw hv⟩

theorem ascends_of_table {α : Type} {d : Decoder α} {v : Json} {l : List (String × α)}
    (h : Decoder.table d v = .ok l) (hv : v.Ordered) : Ascends l := by
  cases v with
  | obj entries =>
    have hkeys : l.map Prod.fst = entries.map Prod.fst := keys_of_table h
    have hasc : (l.map Prod.fst).Pairwise (· < ·) := by
      rw [hkeys]
      exact List.pairwise_map.2 (ordered_obj.1 hv).1
    exact List.pairwise_map.1 hasc
  | null | bool _ | num _ | str _ | arr _ => cases h

end LspClient.Json
