import LspClient.Write.Batch
import Mathlib.Data.List.Induction

/-!
# What batches hold

`since id calls` is what was written to a batch since it was last flushed. The batch holds the last
write to each path of these, in the order of the first writes (`Queue`); this is what deferring and
flushing calls keep (`Holds.defer`, `Holds.flush`). A write that was deferred is superseded by a
later one, or flushed by exactly one call, or still there (`fate`).
-/

namespace LspClient

/-- A write that belongs to a batch, and may flush it. -/
structure BatchCall where
  id : String
  entry : WriteEntry
  flush : Bool
  deriving Repr

namespace Batches

variable {id : String} {e : WriteEntry} {writes queue : List WriteEntry}
  {calls later : List BatchCall} {b : Batches}

def since (id : String) (calls : List BatchCall) : List WriteEntry :=
  calls.foldl (fun writes call =>
    if call.id = id then if call.flush then [] else writes ++ [call.entry] else writes) []

theorem since_append_other {call : BatchCall} (h : call.id ≠ id) :
    since id (calls ++ [call]) = since id calls := by
  simp [since, List.foldl_append, h]

theorem since_append_defer :
    since id (calls ++ [⟨id, e, false⟩]) = since id calls ++ [e] := by
  simp [since, List.foldl_append]

theorem since_append_flush : since id (calls ++ [⟨id, e, true⟩]) = [] := by
  simp [since, List.foldl_append]

/-! ### Queues -/

/-- No later write goes to the same path. -/
def Latest (writes : List WriteEntry) (e : WriteEntry) : Prop :=
  ∃ before after, writes = before ++ e :: after ∧ ∀ e' ∈ after, ¬ e'.path.Same e.path

/-- Some write to the one path comes before all writes to the other. -/
def FirstBefore (writes : List WriteEntry) (p p' : Path) : Prop :=
  ∃ before e after, writes = before ++ e :: after ∧ e.path.Same p ∧
    ∀ e' ∈ before, ¬ e'.path.Same p'

structure Queue (writes queue : List WriteEntry) : Prop where
  latest : ∀ e ∈ queue, Latest writes e
  covers : ∀ e ∈ writes, ∃ e' ∈ queue, e'.path.Same e.path
  once : queue.Pairwise fun e e' => ¬ e.path.Same e'.path
  inOrder : queue.Pairwise fun e e' => FirstBefore writes e.path e'.path

theorem queue_nil : Queue [] [] := ⟨by simp, by simp, .nil, .nil⟩

theorem latest_append_self : Latest (writes ++ [e]) e := ⟨writes, [], rfl, by simp⟩

theorem Latest.append {e' : WriteEntry} (h : Latest writes e) (hne : ¬ e'.path.Same e.path) :
    Latest (writes ++ [e']) e := by
  obtain ⟨before, after, rfl, hafter⟩ := h
  refine ⟨before, after ++ [e'], by simp, ?_⟩
  intro x hx
  rcases List.mem_append.1 hx with hx | hx
  · exact hafter x hx
  · rwa [List.mem_singleton.1 hx]

theorem FirstBefore.append {p p' : Path} (h : FirstBefore writes p p') (e : WriteEntry) :
    FirstBefore (writes ++ [e]) p p' := by
  obtain ⟨before, x, after, rfl, hx, hbefore⟩ := h
  exact ⟨before, x, after ++ [e], by simp, hx, hbefore⟩

/-- An entry takes the place of the one for its path, or comes last. -/
theorem enter_cases (e : WriteEntry) (queue : List WriteEntry) :
    (∃ front old back, queue = front ++ old :: back ∧ old.path.Same e.path ∧
      (∀ x ∈ front, ¬ x.path.Same e.path) ∧ enter e queue = front ++ e :: back) ∨
    ((∀ x ∈ queue, ¬ x.path.Same e.path) ∧ enter e queue = queue ++ [e]) := by
  induction queue with
  | nil => exact .inr ⟨by simp, rfl⟩
  | cons x queue ih =>
    by_cases hx : x.path.Same e.path
    · exact .inl ⟨[], x, queue, rfl, hx, by simp, by simp [enter, hx]⟩
    · rcases ih with ⟨front, old, back, rfl, hold, hfront, henter⟩ | ⟨hnone, henter⟩
      · refine .inl ⟨x :: front, old, back, rfl, hold, ?_, by simp [enter, hx, henter]⟩
        simpa [hx] using hfront
      · refine .inr ⟨?_, by simp [enter, hx, henter]⟩
        simpa [hx] using hnone

theorem pairwise_replace {α : Type} {r : α → α → Prop} {front back : List α} {a a' : α}
    (h : (front ++ a :: back).Pairwise r) (hleft : ∀ x, r x a → r x a')
    (hright : ∀ x, r a x → r a' x) : (front ++ a' :: back).Pairwise r := by
  rw [List.pairwise_append, List.pairwise_cons] at h ⊢
  obtain ⟨hfront, ⟨hback, hrest⟩, hacross⟩ := h
  refine ⟨hfront, ⟨fun x hx => hright x (hback x hx), hrest⟩, ?_⟩
  intro x hx y hy
  rcases List.mem_cons.1 hy with rfl | hy
  · exact hleft x (hacross x hx a (by simp))
  · exact hacross x hx y (by simp [hy])

theorem Queue.enter_old {front back : List WriteEntry} {old : WriteEntry}
    (h : Queue writes (front ++ old :: back)) (hold : old.path.Same e.path)
    (hfront : ∀ x ∈ front, ¬ x.path.Same e.path) :
    Queue (writes ++ [e]) (front ++ e :: back) := by
  have hback : ∀ x ∈ back, ¬ e.path.Same x.path := by
    intro x hx hsame
    have honce := (List.pairwise_cons.1 (List.pairwise_append.1 h.once).2.1).1 x hx
    exact honce (hold.trans hsame)
  -- in the queue the new entry stands where the old one did, among the writes it is the last
  refine ⟨?_, ?_, ?_, ?_⟩
  · intro x hx
    rcases List.mem_append.1 hx with hx' | hx'
    · exact (h.latest x (by simp [hx'])).append fun hsame => hfront x hx' hsame.symm
    · rcases List.mem_cons.1 hx' with rfl | hx'
      · exact latest_append_self
      · exact (h.latest x (by simp [hx'])).append (hback x hx')
  · intro x hx
    rcases List.mem_append.1 hx with hx | hx
    · obtain ⟨y, hy, hsame⟩ := h.covers x hx
      rcases List.mem_append.1 hy with hy | hy
      · exact ⟨y, by simp [hy], hsame⟩
      · rcases List.mem_cons.1 hy with rfl | hy
        · exact ⟨e, by simp, hold.symm.trans hsame⟩
        · exact ⟨y, by simp [hy], hsame⟩
    · exact ⟨e, by simp, by rw [List.mem_singleton.1 hx]; exact rfl⟩
  · refine pairwise_replace h.once ?_ ?_
    · intro x hx hsame
      exact hx (hsame.trans hold.symm)
    · intro x hx hsame
      exact hx (hold.trans hsame)
  · refine (pairwise_replace h.inOrder ?_ ?_).imp fun hxy => hxy.append e
    · rintro x ⟨front, y, back, hwrites, hy, hbefore⟩
      exact ⟨front, y, back, hwrites, hy, fun z hz hsame => hbefore z hz (hsame.trans hold.symm)⟩
    · rintro x ⟨front, y, back, hwrites, hy, hbefore⟩
      exact ⟨front, y, back, hwrites, hy.trans hold, hbefore⟩

theorem Queue.enter_new (h : Queue writes queue) (hnone : ∀ x ∈ queue, ¬ x.path.Same e.path) :
    Queue (writes ++ [e]) (queue ++ [e]) := by
  have hwrites : ∀ x ∈ writes, ¬ x.path.Same e.path := by
    intro x hx hsame
    obtain ⟨y, hy, hyx⟩ := h.covers x hx
    exact hnone y hy (hyx.trans hsame)
  refine ⟨?_, ?_, ?_, ?_⟩
  · intro x hx
    rcases List.mem_append.1 hx with hx | hx
    · exact (h.latest x hx).append fun hsame => hnone x hx hsame.symm
    · rw [List.mem_singleton.1 hx]
      exact latest_append_self
  · intro x hx
    rcases List.mem_append.1 hx with hx | hx
    · obtain ⟨y, hy, hsame⟩ := h.covers x hx
      exact ⟨y, by simp [hy], hsame⟩
    · exact ⟨x, by simp [List.mem_singleton.1 hx], rfl⟩
  · rw [List.pairwise_append]
    exact ⟨h.once, by simp, by simpa using hnone⟩
  · rw [List.pairwise_append]
    refine ⟨h.inOrder.imp fun hxy => hxy.append e, by simp, ?_⟩
    intro x hx y hy
    rw [List.mem_singleton.1 hy]
    obtain ⟨before, after, rfl, -⟩ := h.latest x hx
    exact ⟨before, x, after ++ [e], by simp, rfl, fun z hz => hwrites z (by simp [hz])⟩

theorem Queue.enter (h : Queue writes queue) (e : WriteEntry) :
    Queue (writes ++ [e]) (enter e queue) := by
  rcases enter_cases e queue with ⟨front, old, back, rfl, hold, hfront, henter⟩ | ⟨hnone, henter⟩
  · rw [henter]
    exact h.enter_old hold hfront
  · rw [henter]
    exact h.enter_new hnone

/-- The queue has every write that no later one goes over. -/
theorem Queue.mem_of_latest (h : Queue writes queue) (he : Latest writes e) : e ∈ queue := by
  obtain ⟨before, after, hwrites, hafter⟩ := he
  obtain ⟨x, hx, hsame⟩ := h.covers e (by simp [hwrites])
  obtain ⟨before', after', hwrites', hafter'⟩ := h.latest x hx
  rw [hwrites] at hwrites'
  rcases List.append_eq_append_iff.1 hwrites' with ⟨mid, rfl, heq⟩ | ⟨mid, rfl, heq⟩
  · cases mid with
    | nil =>
      cases heq
      exact hx
    | cons y mid =>
      cases heq
      exact absurd hsame (hafter x (by simp))
  · cases mid with
    | nil =>
      cases heq
      exact hx
    | cons y mid =>
      cases heq
      exact absurd hsame.symm (hafter' e (by simp))

/-! ### Tables of queues -/

theorem queued_defer_self : (b.defer id e).2.queued id = enter e (b.queued id) := by
  simp [defer, queued]

theorem queued_defer_ne {id' : String} (h : id' ≠ id) :
    (b.defer id e).2.queued id' = b.queued id' := by
  simp [defer, queued, Table.get?_put_ne _ _ (Ne.symm h)]

theorem length_defer : (b.defer id e).1 = ((b.defer id e).2.queued id).length := by
  rw [queued_defer_self]
  rfl

theorem queued_flush_self : (b.flush id e).2.queued id = [] := by
  simp [flush, queued]

theorem queued_flush_ne {id' : String} (h : id' ≠ id) :
    (b.flush id e).2.queued id' = b.queued id' := by
  simp [flush, queued, Table.get?_erase_ne _ (Ne.symm h)]

/-- Every batch holds what was written to it since it was last flushed. -/
def Holds (calls : List BatchCall) (b : Batches) : Prop :=
  ∀ id, Queue (since id calls) (b.queued id)

theorem holds_nil : Holds [] [] := fun _ => queue_nil

theorem Holds.defer (h : Holds calls b) (id : String) (e : WriteEntry) :
    Holds (calls ++ [⟨id, e, false⟩]) (b.defer id e).2 := by
  intro id'
  by_cases hid : id' = id
  · subst hid
    rw [since_append_defer, queued_defer_self]
    exact (h id').enter e
  · rw [since_append_other (Ne.symm hid), queued_defer_ne hid]
    exact h id'

theorem Holds.flush (h : Holds calls b) (id : String) (e : WriteEntry) :
    Holds (calls ++ [⟨id, e, true⟩]) (b.flush id e).2 := by
  intro id'
  by_cases hid : id' = id
  · subst hid
    rw [since_append_flush, queued_flush_self]
    exact queue_nil
  · rw [since_append_other (Ne.symm hid), queued_flush_ne hid]
    exact h id'

theorem Holds.flushed (h : Holds calls b) (id : String) (e : WriteEntry) :
    Queue (since id calls ++ [e]) (b.flush id e).1 := (h id).enter e

/-! ### What becomes of a write -/

/-- Of the calls after a write, the one at `m` writes to the same path, before any other flushes the
batch. -/
def SupersededAt (id : String) (e : WriteEntry) (later : List BatchCall) (m : Nat) : Prop :=
  ∃ call, later[m]? = some call ∧ call.id = id ∧ call.entry.path.Same e.path ∧
    ∀ c ∈ later.take m, c.id = id → c.flush = false

/-- Of the calls after a write, the one at `m` is the first that flushes the batch, and neither it
nor any before it writes to the same path. -/
def FlushedAt (id : String) (e : WriteEntry) (later : List BatchCall) (m : Nat) : Prop :=
  ∃ call, later[m]? = some call ∧ call.id = id ∧ call.flush = true ∧
    ¬ call.entry.path.Same e.path ∧
    ∀ c ∈ later.take m, c.id = id → c.flush = false ∧ ¬ c.entry.path.Same e.path

/-- None of the calls after a write flushes the batch, or writes to the same path. -/
def StillQueued (id : String) (e : WriteEntry) (later : List BatchCall) : Prop :=
  ∀ c ∈ later, c.id = id → c.flush = false ∧ ¬ c.entry.path.Same e.path

theorem exists_first {α : Type} (p : α → Prop) (l : List α) :
    (∀ a ∈ l, ¬ p a) ∨ ∃ m a, l[m]? = some a ∧ p a ∧ ∀ a' ∈ l.take m, ¬ p a' := by
  induction l with
  | nil => exact .inl (by simp)
  | cons x l ih =>
    by_cases hx : p x
    · exact .inr ⟨0, x, rfl, hx, by simp⟩
    · rcases ih with hnone | ⟨m, a, ha, hpa, hbefore⟩
      · exact .inl (by simpa [hx] using hnone)
      · exact .inr ⟨m + 1, a, ha, hpa, by simpa [hx] using hbefore⟩

theorem FlushedAt.unique {m m' : Nat} (h : FlushedAt id e later m) (h' : FlushedAt id e later m') :
    m' = m := by
  have hless {m m' : Nat} (h : FlushedAt id e later m) (h' : FlushedAt id e later m') :
      ¬ m < m' := by
    intro hlt
    obtain ⟨call, hcall, hid, hflush, -⟩ := h
    obtain ⟨-, -, -, -, -, hbefore⟩ := h'
    have hmem : call ∈ later.take m' := by
      refine List.mem_of_getElem? (i := m) ?_
      rwa [List.getElem?_take_of_lt hlt]
    have hnot := (hbefore call hmem hid).1
    rw [hflush] at hnot
    cases hnot
  have := hless h h'
  have := hless h' h
  omega

theorem fate (id : String) (e : WriteEntry) (later : List BatchCall) :
    (∃ m, SupersededAt id e later m) ∨ (∃! m, FlushedAt id e later m) ∨
      StillQueued id e later := by
  have hquiet {c : BatchCall}
      (h : ¬ (c.id = id ∧ (c.flush = true ∨ c.entry.path.Same e.path))) (hid : c.id = id) :
      c.flush = false ∧ ¬ c.entry.path.Same e.path := by
    simpa [hid] using h
  rcases exists_first (fun c : BatchCall =>
    c.id = id ∧ (c.flush = true ∨ c.entry.path.Same e.path)) later with
    hnone | ⟨m, call, hcall, ⟨hid, htouch⟩, hbefore⟩
  · exact .inr (.inr fun c hc => hquiet (hnone c hc))
  · by_cases hsame : call.entry.path.Same e.path
    · exact .inl ⟨m, call, hcall, hid, hsame, fun c hc hcid => (hquiet (hbefore c hc) hcid).1⟩
    · have hflush : call.flush = true := htouch.resolve_right hsame
      have hm : FlushedAt id e later m :=
        ⟨call, hcall, hid, hflush, hsame, fun c hc => hquiet (hbefore c hc)⟩
      exact .inr (.inl ⟨m, hm, fun m' hm' => hm.unique hm'⟩)

/-- A write that is still queued is the last one to its path since the batch was flushed. -/
theorem StillQueued.latest (h : StillQueued id e later) (before : List BatchCall) :
    Latest (since id (before ++ ⟨id, e, false⟩ :: later)) e := by
  induction later using List.reverseRecOn with
  | nil =>
    rw [since_append_defer]
    exact latest_append_self
  | append_singleton later call ih =>
    have hlater := ih fun c hc => h c (by simp [hc])
    rw [← List.cons_append, ← List.append_assoc]
    by_cases hid : call.id = id
    · obtain ⟨hflush, hsame⟩ := h call (by simp) hid
      obtain ⟨id', entry, flush⟩ := call
      subst hid hflush
      rw [since_append_defer]
      exact hlater.append hsame
    · rwa [since_append_other hid]

/-- The call that flushes a write finds it to be the last one to its path. -/
theorem FlushedAt.latest {m : Nat} (h : FlushedAt id e later m) (before : List BatchCall) :
    ∃ call, later[m]? = some call ∧ call.id = id ∧ call.flush = true ∧
      Latest (since id (before ++ ⟨id, e, false⟩ :: later.take m) ++ [call.entry]) e := by
  obtain ⟨call, hcall, hid, hflush, hsame, hquiet⟩ := h
  have hstill : StillQueued id e (later.take m) := hquiet
  exact ⟨call, hcall, hid, hflush, (hstill.latest before).append hsame⟩

end Batches

end LspClient
