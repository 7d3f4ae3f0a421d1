import LspClient.Proofs.Diagnostic.Freshness
import LspClient.Proofs.Document.Notes
import LspClient.Uri.File

/-!
# Which file is meant

A file has many URIs: a character may be escaped or not, the host may be there or not. `Uri.Names`
is about all of them. The cache compares URIs as they are written, though, and is asked under the
one that the client writes itself. So what is published for a file is seen exactly if its server
spells the URI in the same way (`matched_by_spelling`).
-/

namespace LspClient

/-- A URI names a file, however it is spelled. -/
def Uri.Names (uri : String) (p : Path) : Prop := ∃ q, Uri.toPath? uri = some q ∧ q.Same p

theorem Uri.exists_ofPath {p : Path} (h : p.isAbsolute = true) : ∃ uri, Uri.ofPath p = .ok uri := by
  unfold Uri.ofPath
  rw [if_pos h]
  exact ⟨_, rfl⟩

namespace Diagnostics

open Program
open Connection (Later)

variable {ε : Type} {i : Nat} {uri : String} {q : Wait} {cached : Option CachedDiagnostics}
  {w w' : World ε} {p p' : Work ε (Except Failure (List Diagnostic))}
  {steps : List (World ε × World ε)} {started : List (Work ε Bool)}

/-- What the others do while time goes on, if they leave what is cached for a URI alone. -/
structure Beside (i : Nat) (uri : String) (w w' : World ε) : Prop extends Later i w w' where
  cached : (w'.connection i).cache.get? uri = (w.connection i).cache.get? uri

/-! ### Waits that find what they wait for -/

/-- A wait that sees what is fresh, by the steps it still takes. -/
inductive Finds (i : Nat) (q : Wait) (cached : Option CachedDiagnostics) :
    Nat → Work ε (Except Failure (List Diagnostic)) → Prop
  | begins : Finds i q cached 4 (q.program i)
  | polls (deadline rounds : Nat) : Finds i q cached 3 (q.polls i deadline (rounds + 1))
  | asksAlive (deadline rounds : Nat) : Finds i q cached 2 (q.asksAlive i deadline rounds cached)
  | readsClock (deadline rounds : Nat) (alive : Bool) :
      Finds i q cached 1 (q.readsClock i deadline rounds cached alive)
  | answers : Finds i q cached 0 (pure (.ok (Wait.answer cached)))

theorem Finds.step {n : Nat} (h : Finds i q cached n p)
    (hfresh : DiagnosticsCache.isFresh cached q.floor = true) (hsees : q.sees i w = cached)
    (hs : Step w p w' p' started) : w' = w ∧ ∃ m, n = m + 1 ∧ Finds i q cached m p' := by
  cases h with
  | begins =>
    rw [Wait.program_eq] at hs
    obtain ⟨hw, rfl, -⟩ := step_act_bind.1 hs
    exact ⟨hw, 3, rfl, .polls _ _⟩
  | polls =>
    rw [Wait.polls_succ] at hs
    obtain ⟨hw, rfl, -⟩ := step_act_bind.1 hs
    subst hsees
    exact ⟨hw, 2, rfl, .asksAlive _ _⟩
  | asksAlive =>
    obtain ⟨hw, rfl, -⟩ := step_act_bind.1 hs
    exact ⟨hw, 1, rfl, .readsClock _ _ _⟩
  | readsClock =>
    obtain ⟨hw, rfl, -⟩ := step_act_bind.1 hs
    refine ⟨hw, 0, rfl, ?_⟩
    dsimp only
    rw [if_pos (by simp [hfresh])]
    exact .answers
  | answers => cases hs

theorem Finds.canMove {n : Nat} (h : Finds i q cached (n + 1) p) (w : World ε) :
    p.canMove w = true := by
  cases h <;> rfl

/-- A wait under a URI for which something fresh is cached returns it, in four steps of its own
that nothing holds up. -/
theorem finds_of_traces (hfresh : DiagnosticsCache.isFresh (q.sees i w) q.floor = true)
    (ht : (q.program i).Traces (Beside i q.uri) w steps started p' w') :
    p' = pure (.ok (Wait.answer (q.sees i w))) ∨
      steps.length < 4 ∧ ∀ s : World ε, p'.canMove s = true := by
  have hfinds : q.sees i w' = q.sees i w ∧
      ∃ n, steps.length + n = 4 ∧ Finds i q (q.sees i w) n p' := by
    induction ht with
    | start => exact ⟨rfl, 4, rfl, .begins⟩
    | others _ hw ih => exact ⟨hw.cached.trans ih.1, ih.2⟩
    | step _ hs ih =>
      obtain ⟨hsees, n, hn, hfinds⟩ := ih
      obtain ⟨rfl, m, rfl, hfinds'⟩ := hfinds.step hfresh hsees hs
      exact ⟨hsees, m, by simp; omega, hfinds'⟩
  obtain ⟨-, n, hn, hfinds⟩ := hfinds
  match n with
  | 0 =>
    cases hfinds
    exact .inl rfl
  | n + 1 => exact .inr ⟨by omega, hfinds.canMove⟩

/-! ### Waits that find nothing -/

/-- A wait that has begun at `w` stands where it may stand, and has seen what was cached then. -/
theorem stands_of_traces (hi : i < w.connections.length)
    (ht : (q.program i).Traces (Beside i q.uri) w steps started p' w') :
    i < w'.connections.length ∧ q.sees i w' = q.sees i w ∧
      (p' = q.program i ∨ ∃ deadline, w.clock + q.timeout ≤ deadline ∧
        q.Stands i deadline (fun _ r => q.sees i r = q.sees i w) w' p') ∧ w.clock ≤ w'.clock := by
  induction ht with
  | start => exact ⟨hi, rfl, .inl rfl, Nat.le_refl _⟩
  | others _ hw ih =>
    obtain ⟨hthere, hsees, hstands, hclock⟩ := ih
    refine ⟨hw.there hthere, hw.cached.trans hsees, hstands.imp_right ?_,
      Nat.le_trans hclock hw.clock⟩
    rintro ⟨deadline, hdeadline, hp⟩
    exact ⟨deadline, hdeadline, hp.later (fun _ _ hr => hr) hthere hw.toLater⟩
  | step _ hs ih =>
    obtain ⟨hthere, hsees, hstands, hclock⟩ := ih
    -- its first step sets the deadline; from then on it stands in one of its rounds
    rcases hstands with rfl | ⟨deadline, hdeadline, hp⟩
    · rw [Wait.program_eq] at hs
      obtain ⟨rfl, rfl, -⟩ := step_act_bind.1 hs
      exact ⟨hthere, hsees, .inr ⟨_, Nat.add_le_add_right hclock _,
        .round (Wait.enough_first _ _)⟩, hclock⟩
    · obtain ⟨rfl, ⟨rounds, rfl, henough, rfl⟩ | hp'⟩ :=
        hp.step (L := fun _ r => q.sees i r = q.sees i w) (fun _ _ hr => hr) hs
      · exact ⟨hthere, hsees, .inr ⟨deadline, hdeadline, .looked hsees henough⟩, hclock⟩
      · exact ⟨hthere, hsees, .inr ⟨deadline, hdeadline, hp'⟩, hclock⟩

/-- A wait under a URI for which nothing fresh is cached returns only when its time is over, or the
connection has ended. -/
theorem silent_of_traces {items : List Diagnostic} (hi : i < w.connections.length)
    (hfresh : DiagnosticsCache.isFresh (q.sees i w) q.floor = false)
    (ht : (q.program i).Traces (Beside i q.uri) w steps started (pure (.ok items)) w') :
    items = Wait.answer (q.sees i w) ∧
      (w.clock + q.timeout ≤ w'.clock ∨ (w'.connection i).isAlive = false) := by
  obtain ⟨-, -, hbegun | ⟨deadline, hdeadline, hstands⟩, -⟩ := stands_of_traces hi ht
  · cases hbegun
  · generalize hp : (pure (.ok items) : Work ε (Except Failure (List Diagnostic))) = p at hstands
    cases hstands with
    | @answered r hr h =>
      cases hp
      rw [hr] at h ⊢
      refine ⟨rfl, ?_⟩
      rcases h with hfresh' | hended | hover
      · rw [hfresh] at hfresh'
        cases hfresh'
      · exact .inr hended
      · exact .inl (Nat.le_trans hdeadline hover)
    | @round rounds h =>
      match rounds, h with
      | rounds + 1, _ => cases hp
    | _ => cases hp

/-! ### What is seen of a publish -/

/-- The items are what is seen under a URI, until it is dropped there. -/
structure Seen (i : Nat) (uri : String) (items : List Diagnostic) (floor : Nat) (w : World ε) :
    Prop where
  cached : (w.connection i).cache.get? uri = some ⟨items, floor + 1⟩
  /-- By waits whose floor was read before. -/
  waits : ∀ q : Wait, q.uri = uri → (∀ f, q.floor = some f → f ≤ floor) →
    ∀ steps started p' w', (q.program i).Traces (Beside i uri) w steps started p' w' →
      p' = pure (.ok items) ∨ steps.length < 4 ∧ ∀ s : World ε, p'.canMove s = true
  dropped : (Document.invalidate uri (w.connection i)).cache.get? uri = none

/-- The items that were published at `w` for another URI are not seen under this one. -/
structure Unseen (i : Nat) (uri other : String) (items : List Diagnostic) (w w' : World ε) :
    Prop where
  cached : (w'.connection i).cache.get? uri = (w.connection i).cache.get? uri
  waits : ∀ q : Wait, q.uri = uri →
    DiagnosticsCache.isFresh ((w.connection i).cache.get? uri) q.floor = false →
    ∀ steps started result w'', (q.program i).Traces (Beside i uri) w' steps started
        (pure (.ok result)) w'' →
      result = Wait.answer ((w.connection i).cache.get? uri) ∧
        (w'.clock + q.timeout ≤ w''.clock ∨ (w''.connection i).isAlive = false)
  kept : (Document.invalidate uri (w'.connection i)).cache.get? other =
    some ⟨items, (w.connection i).cache.version + 1⟩

theorem seen_of_cached {items : List Diagnostic} {floor : Nat}
    (h : (w.connection i).cache.get? uri = some ⟨items, floor + 1⟩) : Seen i uri items floor w where
  cached := h
  waits q hq hfloor steps started p' w' ht := by
    subst hq
    have hsees : q.sees i w = some ⟨items, floor + 1⟩ := h
    have hfresh : DiagnosticsCache.isFresh (q.sees i w) q.floor = true := by
      rw [hsees]
      cases hf : q.floor with
      | none => rfl
      | some f => exact decide_eq_true (Nat.lt_succ_of_le (hfloor f hf))
    have hfinds := finds_of_traces hfresh ht
    rwa [hsees] at hfinds
  dropped := Table.get?_erase_self _ _

/-- What is published for a file is seen under the URI that the client writes for it exactly if the
server has spelled it so. -/
theorem matched_by_spelling {file : Path} {frame : Json} {publish : Publish}
    (hfile : file.isAbsolute = true) (hp : Publishes frame publish)
    (hi : i < w.connections.length) (hw : w' =
      w.setConnection i (Connection.receive frame (w.connection i)).2) :
    ∃ uri, Uri.ofPath file = .ok uri ∧
      (publish.uri = uri → Seen i uri (publish.items (w.connection i).name)
        (w.connection i).cache.version w') ∧
      (publish.uri ≠ uri → Unseen i uri publish.uri (publish.items (w.connection i).name) w w') := by
  obtain ⟨uri, huri⟩ := Uri.exists_ofPath hfile
  obtain ⟨cache, hgains, hreceive⟩ := receive_of_publishes hp (w.connection i)
  have hthere : i < w'.connections.length := by
    rw [hw, World.length_setConnection]
    exact hi
  have hcache : (w'.connection i).cache = cache := by
    rw [hw, World.connection_setConnection hi, hreceive]
  refine ⟨uri, huri, fun heq => ?_, fun hne => ?_⟩
  · subst heq
    exact seen_of_cached (hcache ▸ hgains.own)
  -- the publish is under a URI of its own, so the entry of the file is as it was
  · have hcached : (w'.connection i).cache.get? uri = (w.connection i).cache.get? uri := by
      rw [hcache]
      exact hgains.others uri hne.symm
    refine ⟨hcached, fun q hq hfresh steps started result w'' ht => ?_, ?_⟩
    · subst hq
      have hsees : q.sees i w' = (w.connection i).cache.get? q.uri := hcached
      rw [← hsees] at hfresh ⊢
      exact silent_of_traces hthere hfresh ht
    · change ((w'.connection i).cache.entries.erase uri).get? publish.uri = _
      rw [Table.get?_erase_ne _ hne.symm, ← hgains.own, ← hcache]
      rfl

/-! ### A name with a sign that may be escaped -/

def badParams (uri : String) : Json :=
  .object [("uri", .str uri), ("diagnostics", .arr [diagnosticOf "bad"])]

def badFrame (uri : String) : Json :=
  Message.ofNotification Method.publishDiagnostics (some (badParams uri))

/-- What is decoded from the parameters. -/
def bad (uri : String) : Publish :=
  ⟨uri, none, [⟨⟨⟨0, 0⟩, ⟨0, 0⟩⟩, none, none, none, "bad", none⟩]⟩

theorem publishes_badFrame (uri : String) : Publishes (badFrame uri) (bad uri) := by
  have hparams : badParams uri =
      .obj [("diagnostics", .arr [diagnosticOf "bad"]), ("uri", .str uri)] := by
    have hne : ¬"diagnostics" = "uri" := by decide
    have hlt : "diagnostics" < "uri" := by decide
    simp only [badParams, Json.object, Json.sortEntries, Json.insertEntry, List.foldl_cons,
      List.foldl_nil, hne, hlt, if_false, if_true]
  refine ⟨Json.get?_object .., Json.get?_object .., badParams uri, Json.get?_object .., ?_⟩
  rw [hparams]
  rfl

/-- The connection once the frame has been taken in. -/
def afterBad (uri : String) : World Unit :=
  Connection.alone.setConnection 0
    (Connection.receive (badFrame uri) (Connection.alone.connection 0)).2

theorem matched_by_spelling_unescaped :
    Uri.ofPath ⟨"/a@b"⟩ = .ok "file:///a@b" ∧
    ∃ uri, Uri.ofPath ⟨"/a@b"⟩ = .ok uri ∧
      ("file:///a@b" = uri →
        Seen 0 uri ((bad "file:///a@b").items "server") 0 (afterBad "file:///a@b")) ∧
      ("file:///a@b" ≠ uri → Unseen 0 uri "file:///a@b" ((bad "file:///a@b").items "server")
        Connection.alone (afterBad "file:///a@b")) :=
  ⟨by decide +kernel,
    matched_by_spelling (by decide) (publishes_badFrame _) (w := Connection.alone) (by decide) rfl⟩

/-- A URI may name a file without being the one under which its diagnostics are looked for. -/
theorem unseen_under_escaped :
    Uri.ofPath ⟨"/a@b"⟩ = .ok "file:///a@b" ∧ Uri.Names "file:///a%40b" ⟨"/a@b"⟩ ∧
    Publishes (badFrame "file:///a%40b") (bad "file:///a%40b") ∧
    ((bad "file:///a%40b").items "server").map (·.message) = ["bad"] ∧
    ((afterBad "file:///a%40b").connection 0).cache.get? "file:///a@b" = none :=
  ⟨by decide +kernel, ⟨⟨"/a@b"⟩, by decide +kernel, rfl⟩, publishes_badFrame _, rfl,
    by decide +kernel⟩

end Diagnostics

end LspClient
