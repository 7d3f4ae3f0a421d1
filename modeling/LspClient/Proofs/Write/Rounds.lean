import LspClient.Proofs.Connection.Touching
import LspClient.Proofs.Document.Courses
import LspClient.Proofs.Write.Parts

/-!
# Rounds

A write goes round its connections: it has the same operation on the document run at each of them,
and waits for all. Seen from one connection such a round is a course, in which the server is told of
the document what the operation is to say (`Resting.round`); so is the collection of diagnostics
(`Resting.collect`), and whatever leaves the connection alone, in which nothing is said
(`Resting.silent`).
-/

namespace LspClient.Session

open Program Crew Document

variable {ε α : Type} {s : Session ε} {i j : Nat} {w w' : World ε} {uri : String} {wire : Wire}
  {path : Path} {token : Token} {moments later : List (Moment (World ε))}
  {c c' : Crew (World ε) Errand (Option Outcome)} {G G' : Tiding → Prop}

/-! ### Stretches -/

/-- A connection is at rest, perhaps with clients that stand behind those of the crew. -/
def Resting (i : Nat) (uri : String) (wire : Wire)
    (c : Crew (World ε) Errand (Option Outcome)) : Prop :=
  ∃ front, Rests i uri wire (c.join front)

/-- What the server is told of a document in moments in a row. -/
def told (i : Nat) (uri : String) (wire : Wire) (moments : List (Moment (World ε))) : List Tiding :=
  tidingsOf uri (news i wire moments)

theorem told_append (i : Nat) (uri : String) (wire : Wire) (moments later : List (Moment (World ε))) :
    told i uri wire (moments ++ later) =
      told i uri wire moments ++ told i uri (wire.along i moments) later := by
  rw [told, news_append, tidingsOf_append]
  rfl

theorem tidingsOf_along (i : Nat) (uri : String) (wire : Wire) (moments : List (Moment (World ε))) :
    tidingsOf uri (wire.along i moments).written =
      tidingsOf uri wire.written ++ told i uri wire moments := by
  rw [written_along, tidingsOf_append]
  rfl

/-- The moments lead to a rest, and the server was told nothing else of the document. -/
structure Stretch (i : Nat) (uri : String) (wire : Wire) (moments : List (Moment (World ε)))
    (c : Crew (World ε) Errand (Option Outcome)) (G : Tiding → Prop) : Prop where
  rests : Resting i uri (wire.along i moments) c
  tells : ∀ tiding ∈ told i uri wire moments, G tiding

theorem Stretch.told_eq_nil (h : Stretch i uri wire moments c fun _ => False) :
    told i uri wire moments = [] := List.eq_nil_iff_forall_not_mem.2 h.tells

theorem Stretch.mono (hG : ∀ tiding, G tiding → G' tiding) (h : Stretch i uri wire moments c G) :
    Stretch i uri wire moments c G' :=
  ⟨h.rests, fun tiding htiding => hG tiding (h.tells tiding htiding)⟩

theorem Stretch.append (h : Stretch i uri wire moments c G)
    (h' : Stretch i uri (wire.along i moments) later c' G) :
    Stretch i uri wire (moments ++ later) c' G := by
  refine ⟨?_, fun tiding htiding => ?_⟩
  · rw [Wire.along_append]
    exact h'.rests
  · rw [told_append] at htiding
    exact (List.mem_append.1 htiding).elim (h.tells tiding) (h'.tells tiding)

theorem stretch_of_course {ys : List (Errand × Option Outcome)}
    {front : List (Errand × Work ε (Option Outcome))}
    (h : Rests i uri (wire.along i moments) (c'.join front))
    (hcourse : Course i uri moments wire.written (news i wire moments) ys)
    (hsaid : ∀ x tiding, .document x ∈ ys.map Prod.fst →
      Speaks i x.path (Seen moments) x.operation tiding → G tiding) :
    Stretch i uri wire moments c' G := by
  refine ⟨⟨front, h⟩, fun tiding htiding => ?_⟩
  obtain ⟨frame, hframe, htiding⟩ := List.mem_filterMap.1 htiding
  obtain ⟨tiding', htiding', x, hmem, -, hspeaks⟩ :=
    hcourse.said frame hframe (noteOn_of_tidingOn htiding)
  cases htiding.symm.trans htiding'
  exact hsaid x tiding hmem hspeaks

/-- Nothing is said where the connection is left alone. -/
theorem Resting.silent (h : Resting i uri wire c) {p : Work ε α} {x : α} (hp : Keeps (Spares i) p)
    (run : Amid (errandRules ε i) c p moments c' (.done x)) :
    Stretch i uri wire moments c' fun _ => False := by
  obtain ⟨front, h⟩ := h
  have hhosted : Hosted (errandRules ε i) (fun _ _ => True) (begun (errandRules ε i) []) p :=
    .of_keeps hp (.of_forall (fun _ => trivial) p)
  obtain ⟨ys, hkeys, -, hrests, hcourse⟩ := h.course hhosted run
  refine stretch_of_course hrests hcourse fun x tiding hmem => ?_
  rw [hkeys] at hmem
  cases hmem

/-! ### Connections -/

theorem spares_of_touches (hne : j ≠ i) (h : Connection.Touches j w w') : Spares i w w' :=
  .of_eq (Nat.le_of_eq h.length.symm) (h.others i hne.symm)

theorem spares_documents (hne : j ≠ i) :
    Document.Parts (ε := ε) j token fun p => Keeps (Spares i) p :=
  Connection.keeps_documents fun _ _ => spares_of_touches hne

/-- The errands of a round that a connection sees. -/
def errandsAt (i : Nat) (x : Ask) (connections : List Nat) : List Errand :=
  connections.flatMap fun j => if j = i then [.document x] else []

theorem begun_errandsAt (x : Ask) (connections : List Nat) :
    begun (errandRules ε i) (errandsAt i x connections) =
      connections.flatMap fun j => if j = i then begun (errandRules ε i) [.document x] else [] := by
  rw [begun, errandsAt, List.map_flatMap]
  congr 1
  funext j
  split <;> rfl

theorem hosted_onAll (x : Ask) (connections : List Nat) :
    Hosted (errandRules ε i) (fun results rs => ∀ r ∈ rs, ∃ a ∈ results, r = some a.2)
      (begun (errandRules ε i) (errandsAt i x connections))
      (onAll connections fun j => x.program j) := by
  rw [begun_errandsAt]
  refine Hosted.all (S := fun (a : String × Outcome) r => r = some a.2) connections _ _
    fun j _ => ?_
  split
  · next hj =>
    subst hj
    refine .ask (x := Errand.document x) (fun outcome => ?_) fun outcome => ?_
    · exact Keeps.bind (Keeps.look Spares.refl) fun c => Keeps.pure _
    · exact .then fun c => .pure (by simp)
  · next hne =>
    refine .of_keeps ?_ (.of_forall (fun _ => nofun) _)
    exact Keeps.bind (spares_documents hne).program fun outcome =>
      Keeps.bind (Keeps.look Spares.refl) fun c => Keeps.pure _

/-- A round tells the server of a connection what the operation says, or it fails there. -/
theorem Resting.round {x : Ask} {connections : List Nat}
    {results : List (String × Except Failure SyncOutcome)} (h : Resting i uri wire c)
    (huri : x.uri? = some uri)
    (run : Amid (errandRules ε i) c (onAll connections fun j => x.program j) moments c'
      (.done results)) :
    Stretch i uri wire moments c' (Speaks i x.path (Seen moments) x.operation) ∧
      (i ∈ connections → ∃ name outcome, (name, outcome) ∈ results ∧
        (∀ e, outcome = .error e → e.isCancelled = true →
          ∃ w, Seen moments w ∧ w.isCancelled x.token = true) ∧
        ∀ o, outcome = .ok o →
          ToldBy (tidingsOf uri wire.written) (told i uri wire moments) x.operation) := by
  obtain ⟨front, h⟩ := h
  obtain ⟨ys, hkeys, hresults, hrests, hcourse⟩ := h.course (hosted_onAll x connections) run
  -- all that is asked of the connection is the one request
  have hkey (y : Ask) (hy : .document y ∈ ys.map Prod.fst) : y = x := by
    rw [hkeys, errandsAt] at hy
    obtain ⟨j, -, hy⟩ := List.mem_flatMap.1 hy
    split at hy
    · simpa using hy
    · cases hy
  refine ⟨stretch_of_course hrests hcourse fun y tiding hy hspeaks => hkey y hy ▸ hspeaks,
    fun hi => ?_⟩
  have hx : Errand.document x ∈ ys.map Prod.fst := by
    rw [hkeys, errandsAt]
    exact List.mem_flatMap.2 ⟨i, hi, by simp⟩
  obtain ⟨⟨_, r⟩, hmem, rfl⟩ := List.mem_map.1 hx
  obtain ⟨⟨name, outcome⟩, hresult, rfl⟩ := hresults r (List.mem_map_of_mem hmem)
  refine ⟨name, outcome, hresult, ?_, ?_⟩
  · rintro e rfl hcancelled
    exact hcourse.stopped x e hmem huri hcancelled
  · rintro o rfl
    exact hcourse.told x o hmem huri

/-! ### Diagnostics -/

/-- The errands that a connection sees when diagnostics are collected. -/
def refreshesAt (i : Nat) (path : Path) (token : Token) (targets : List Applicable) : List Errand :=
  targets.flatMap fun target =>
    if target.connection? = some i then [.document ⟨.refresh, path, token⟩] else []

theorem begun_refreshesAt (path : Path) (token : Token) (targets : List Applicable) :
    begun (errandRules ε i) (refreshesAt i path token targets) =
      targets.flatMap fun target => if target.connection? = some i then
        begun (errandRules ε i) [.document ⟨.refresh, path, token⟩] else [] := by
  rw [begun, refreshesAt, List.map_flatMap]
  congr 1
  funext target
  split <;> rfl

section Collect

variable (hlint : ∀ name kind path expiry,
  Keeps (Spares i) ((s.linters name kind).lint path ⟨token, expiry⟩))

include hlint

theorem hosted_ofTarget {timeout : Nat} {floors : List (String × Nat)} (target : Applicable) :
    Hosted (errandRules ε i) (fun _ rs => ∀ r ∈ rs, True)
      (if target.connection? = some i then
        begun (errandRules ε i) [.document ⟨.refresh, path, token⟩] else [])
      (Diagnostics.ofTarget s.linters path uri timeout floors token target) := by
  have h : s.Waits token fun p : Work ε _ => Keeps (Spares i) p := keeps_waits Spares.refl hlint
  split
  · next hi =>
    cases target with
    | linter => cases hi
    | protocol name j =>
      obtain rfl : j = i := Option.some.inj hi
      refine Hosted.then (S := fun _ _ => True) (.later (Keeps.look Spares.refl) fun c =>
        .ask (x := Errand.document ⟨.refresh, path, token⟩) (fun r => ?_) fun r => ?_)
        (fun _ => Keeps.pure _) fun _ _ _ => .of_forall (fun _ _ _ => trivial) _
      · match r with
        | .error e => exact h.pure _
        | .ok _ => exact h.bind h.look fun _ => h.waitUntilFresh _
      · exact .of_forall (fun _ => trivial) _
  · next hne =>
    refine .of_keeps (h.ofTarget target fun j hj => spares_documents ?_)
      (.of_forall (fun _ => nofun) _)
    rintro rfl
    exact hne hj

theorem hosted_collect {targets : List Applicable} {timeout : Nat} {floors : List (String × Nat)}
    (huri : Uri.ofPath path = .ok uri) :
    Hosted (errandRules ε i) (fun _ _ => True)
      (begun (errandRules ε i) (refreshesAt i path token targets))
      (Diagnostics.collect s.linters path targets timeout floors token) := by
  have h : s.Waits token fun p : Work ε _ => Keeps (Spares i) p := keeps_waits Spares.refl hlint
  unfold Diagnostics.collect
  rw [huri]
  split
  · next hnone =>
    rw [List.isEmpty_iff.1 hnone]
    exact .of_keeps (h.pure _) trivial
  · rw [begun_refreshesAt]
    refine Hosted.then (Hosted.all (S := fun _ _ => True) targets _ _ fun target _ =>
      hosted_ofTarget hlint target) (fun results => ?_) fun _ _ _ => .of_forall (fun _ => trivial) _
    refine h.bind h.look fun cancelled => ?_
    split <;> exact h.pure _

/-- When diagnostics are collected, the server is told what is on disk. -/
theorem Resting.collect {targets : List Applicable} {timeout : Nat} {floors : List (String × Nat)}
    {found : Except Failure FileReport} (h : Resting i uri wire c) (huri : Uri.ofPath path = .ok uri)
    (run : Amid (errandRules ε i) c (Diagnostics.collect s.linters path targets timeout floors token)
      moments c' (.done found)) :
    Stretch i uri wire moments c' (Speaks i path (Seen moments) .refresh) := by
  obtain ⟨front, h⟩ := h
  obtain ⟨ys, hkeys, -, hrests, hcourse⟩ := h.course (hosted_collect hlint huri) run
  refine stretch_of_course hrests hcourse fun x tiding hx hspeaks => ?_
  rw [hkeys, refreshesAt] at hx
  obtain ⟨target, -, hx⟩ := List.mem_flatMap.1 hx
  split at hx
  · obtain rfl : x = ⟨.refresh, path, token⟩ := by simpa using hx
    exact hspeaks
  · cases hx

end Collect

end LspClient.Session
