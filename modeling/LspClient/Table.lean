/-!
# Tables

A `Table` is a list of entries by key. `put` keeps the place of a key that is there and adds a new
one at the end, so entries stay in the order in which their keys came.
-/

namespace LspClient

abbrev Table (κ α : Type) := List (κ × α)

namespace Table

variable {κ α : Type} [DecidableEq κ]

def get? (t : Table κ α) (k : κ) : Option α :=
  match t with
  | [] => none
  | (k', a) :: rest => if k' = k then some a else get? rest k

def put (t : Table κ α) (k : κ) (a : α) : Table κ α :=
  match t with
  | [] => [(k, a)]
  | (k', a') :: rest => if k' = k then (k, a) :: rest else (k', a') :: put rest k a

def erase (t : Table κ α) (k : κ) : Table κ α := t.filter fun e => e.1 ≠ k

def has (t : Table κ α) (k : κ) : Bool := (get? t k).isSome

/-- To look a key up in a list with one more entry at its head. -/
theorem lookup_cons [BEq κ] [LawfulBEq κ] (l : List (κ × α)) (k k' : κ) (a : α) :
    ((k', a) :: l).lookup k = if k = k' then some a else l.lookup k := by
  rw [List.lookup_cons]
  by_cases h : k = k'
  · simp [h]
  · simp [h, beq_false_of_ne h]

@[simp] theorem get?_put_self (t : Table κ α) (k : κ) (a : α) : get? (put t k a) k = some a := by
  induction t with
  | nil => simp [put, get?]
  | cons e rest ih => by_cases h : e.1 = k <;> simp [put, get?, h, ih]

theorem get?_put_ne (t : Table κ α) {k k' : κ} (a : α) (h : k ≠ k') :
    get? (put t k a) k' = get? t k' := by
  induction t with
  | nil => simp [put, get?, h]
  | cons e rest ih =>
    by_cases he : e.1 = k
    · simp [put, get?, he, h]
    · simp only [put, he, ↓reduceIte, get?, ih]

@[simp] theorem get?_erase_self (t : Table κ α) (k : κ) : get? (erase t k) k = none := by
  induction t with
  | nil => rfl
  | cons e rest ih => by_cases h : e.1 = k <;> simp_all [erase, get?]

theorem get?_erase_ne (t : Table κ α) {k k' : κ} (h : k ≠ k') :
    get? (erase t k) k' = get? t k' := by
  induction t with
  | nil => rfl
  | cons e rest ih =>
    by_cases he : e.1 = k
    · simp_all [erase, get?]
    · have : erase (e :: rest) k = e :: erase rest k := by simp [erase, he]
      simp only [this, get?, ih]

/-- A key that is not there goes to the end. -/
theorem put_of_get?_none {t : Table κ α} {k : κ} (h : get? t k = none) (a : α) :
    put t k a = t ++ [(k, a)] := by
  induction t with
  | nil => rfl
  | cons e rest ih =>
    rw [get?] at h
    split at h
    · cases h
    · next hne => rw [put, if_neg hne, ih h, List.cons_append]

theorem mem_of_get? {t : Table κ α} {k : κ} {a : α} (h : get? t k = some a) : (k, a) ∈ t := by
  induction t with
  | nil => cases h
  | cons e rest ih =>
    rw [get?] at h
    split at h
    · next he =>
      cases h
      exact he ▸ List.mem_cons_self
    · exact List.mem_cons_of_mem e (ih h)

theorem get?_ne_none_of_mem {t : Table κ α} {e : κ × α} (he : e ∈ t) : get? t e.1 ≠ none := by
  induction t with
  | nil => cases he
  | cons e' rest ih =>
    rw [get?]
    split
    · exact nofun
    · next hne =>
      rcases List.mem_cons.1 he with rfl | he
      · exact absurd rfl hne
      · exact ih he

theorem mem_keys_put {t : Table κ α} {k k' : κ} {a : α} (h : k' ∈ (put t k a).map (·.1)) :
    k' = k ∨ k' ∈ t.map (·.1) := by
  induction t with
  | nil => simpa [put] using h
  | cons e rest ih =>
    rw [put] at h
    split at h
    · next he => simpa [he] using h
    · rw [List.map_cons, List.mem_cons] at h ⊢
      rcases h with h | h
      · exact .inr (.inl h)
      · rcases ih h with h | h
        · exact .inl h
        · exact .inr (.inr h)

theorem nodup_keys_put {t : Table κ α} (k : κ) (a : α) (h : (t.map (·.1)).Nodup) :
    ((put t k a).map (·.1)).Nodup := by
  induction t with
  | nil => simp [put]
  | cons e rest ih =>
    obtain ⟨hnot, hrest⟩ := List.nodup_cons.1 h
    rw [put]
    split
    · next he => exact he ▸ h
    · next hne =>
      refine List.nodup_cons.2 ⟨fun hmem => ?_, ih hrest⟩
      rcases mem_keys_put hmem with heq | hmem
      · exact hne heq
      · exact hnot hmem

theorem nodup_keys_erase {t : Table κ α} (k : κ) (h : (t.map (·.1)).Nodup) :
    ((erase t k).map (·.1)).Nodup :=
  (List.filter_sublist.map _).nodup h

end Table

end LspClient
