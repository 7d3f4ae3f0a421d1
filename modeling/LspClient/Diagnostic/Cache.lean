import LspClient.Diagnostic.Basic
import LspClient.Table

/-!
# Diagnostics caches

What was last published for each URI. Every publish gets a stamp, the number of publishes so far,
so that stamps order publishes without a clock.

A publish makes a cache gain the items of one URI, under a stamp of their own (`Gains`). Nothing
else that is done to a cache gives it anything; it may lose entries (`Loses`), and the number of
publishes stays. So what is cached for a URI is always what was last published for it, and its stamp
tells which publish that was (`Stamped`).
-/

namespace LspClient

structure CachedDiagnostics where
  items : List Diagnostic
  stamp : Nat
  deriving DecidableEq, Repr, Inhabited

structure DiagnosticsCache where
  entries : Table String CachedDiagnostics
  /-- The number of publishes so far. -/
  version : Nat
  deriving Repr, Inhabited

namespace DiagnosticsCache

def empty : DiagnosticsCache := ⟨[], 0⟩

def get? (c : DiagnosticsCache) (uri : String) : Option CachedDiagnostics := c.entries.get? uri

def ingest (c : DiagnosticsCache) (uri : String) (items : List Diagnostic) : DiagnosticsCache where
  entries := c.entries.put uri ⟨items, c.version + 1⟩
  version := c.version + 1

def invalidate (c : DiagnosticsCache) (uri : String) : DiagnosticsCache :=
  { c with entries := c.entries.erase uri }

/-- Whether what is cached is newer than `floor`, or just there when no floor is given. -/
def isFresh (cached : Option CachedDiagnostics) (floor : Option Nat) : Bool :=
  match cached, floor with
  | some c, some f => f < c.stamp
  | some _, none => true
  | none, _ => false

/-! ### What becomes of a cache -/

variable {c c' : DiagnosticsCache} {uri : String} {items : List Diagnostic}

/-- A cache is another one with the items of a publish, and one publish more. -/
structure Gains (c : DiagnosticsCache) (uri : String) (items : List Diagnostic)
    (c' : DiagnosticsCache) : Prop where
  version : c'.version = c.version + 1
  own : c'.get? uri = some ⟨items, c.version + 1⟩
  others : ∀ uri', uri' ≠ uri → c'.get? uri' = c.get? uri'

theorem gains_ingest (c : DiagnosticsCache) (uri : String) (items : List Diagnostic) :
    c.Gains uri items (c.ingest uri items) where
  version := rfl
  own := Table.get?_put_self _ _ _
  others _ h := Table.get?_put_ne _ _ (Ne.symm h)

structure Loses (c c' : DiagnosticsCache) : Prop where
  version : c'.version = c.version
  entries : ∀ uri e, c'.get? uri = some e → c.get? uri = some e

theorem Loses.refl (c : DiagnosticsCache) : c.Loses c := ⟨rfl, fun _ _ h => h⟩

theorem loses_invalidate (c : DiagnosticsCache) (uri : String) : c.Loses (c.invalidate uri) := by
  refine ⟨rfl, fun uri' e h => ?_⟩
  by_cases heq : uri = uri'
  · subst heq
    cases (Table.get?_erase_self c.entries uri).symm.trans h
  · exact (Table.get?_erase_ne c.entries heq).symm.trans h

/-! ### Stamps -/

/-- What was published, oldest first. -/
abbrev Published := List (String × List Diagnostic)

variable {published old new : Published} {n : Nat}

/-- The `n`-th publish is the last one for the URI, and these are its items. -/
def Latest (published : Published) (uri : String) (items : List Diagnostic) (n : Nat) : Prop :=
  ∃ earlier later, published = earlier ++ (uri, items) :: later ∧ n = earlier.length + 1 ∧
    ∀ p ∈ later, p.1 ≠ uri

theorem latest_append_self :
    Latest (published ++ [(uri, items)]) uri items (published.length + 1) :=
  ⟨published, [], rfl, rfl, nofun⟩

theorem Latest.append_ne {p : String × List Diagnostic} (h : Latest published uri items n)
    (hp : p.1 ≠ uri) : Latest (published ++ [p]) uri items n := by
  obtain ⟨earlier, later, rfl, rfl, hlater⟩ := h
  refine ⟨earlier, later ++ [p], by simp, rfl, fun q hq => ?_⟩
  rcases List.mem_append.1 hq with hq | hq
  · exact hlater q hq
  · rwa [List.mem_singleton.1 hq]

theorem Latest.get (h : Latest published uri items n) : published[n - 1]? = some (uri, items) := by
  obtain ⟨earlier, later, rfl, rfl, -⟩ := h
  simp

theorem Latest.le_length (h : Latest published uri items n) : 0 < n ∧ n ≤ published.length := by
  obtain ⟨earlier, later, rfl, rfl, -⟩ := h
  simp

/-- A latest publish that is not among the old ones is the latest among the new ones. -/
theorem Latest.of_lt (h : Latest (old ++ new) uri items n) (hn : old.length < n) :
    Latest new uri items (n - old.length) := by
  obtain ⟨earlier, later, heq, rfl, hlater⟩ := h
  rcases List.append_eq_append_iff.1 heq with ⟨mid, rfl, hnew⟩ | ⟨mid, rfl, hnew⟩
  · refine ⟨mid, later, hnew, ?_, hlater⟩
    rw [List.length_append]
    omega
  · rw [List.length_append] at hn
    obtain rfl : mid = [] := List.eq_nil_of_length_eq_zero (by omega)
    exact ⟨[], later, hnew.symm, by simp, hlater⟩

/-- The version counts the publishes, and what is cached was published last for its URI, at its
stamp. -/
structure Stamped (published : Published) (c : DiagnosticsCache) : Prop where
  version : c.version = published.length
  latest : ∀ uri e, c.get? uri = some e → Latest published uri e.items e.stamp

theorem stamped_empty : Stamped [] empty := ⟨rfl, nofun⟩

theorem Stamped.loses (h : Stamped published c) (hc : c.Loses c') : Stamped published c' :=
  ⟨hc.version.trans h.version, fun uri e he => h.latest uri e (hc.entries uri e he)⟩

theorem Stamped.gains (h : Stamped published c) (hc : c.Gains uri items c') :
    Stamped (published ++ [(uri, items)]) c' := by
  refine ⟨by simp [hc.version, h.version], fun uri' e he => ?_⟩
  by_cases heq : uri' = uri
  · subst heq
    rw [hc.own] at he
    cases he
    rw [h.version]
    exact latest_append_self
  · rw [hc.others uri' heq] at he
    exact (h.latest uri' e he).append_ne (Ne.symm heq)

theorem Stamped.stamp_le (h : Stamped published c) {e : CachedDiagnostics}
    (he : c.get? uri = some e) : e.stamp ≤ c.version :=
  h.version ▸ (h.latest uri e he).le_length.2

/-- No two URIs share a stamp. -/
theorem Stamped.stamp_inj (h : Stamped published c) {uri' : String} {e e' : CachedDiagnostics}
    (he : c.get? uri = some e) (he' : c.get? uri' = some e') (heq : e.stamp = e'.stamp) :
    uri = uri' := by
  have hown := (h.latest uri e he).get
  rw [heq, (h.latest uri' e' he').get] at hown
  exact (Prod.mk.inj (Option.some.inj hown)).1.symm

end DiagnosticsCache

end LspClient
