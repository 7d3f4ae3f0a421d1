import LspClient.Proofs.Document.Errands

/-!
# Courses

A program that uses a connection goes on in courses. Nobody works on a document at the beginning of
a course, and nobody at its end (`Rests`). In between errands are run, and what is written about the
document is what these are to say (`Course`): an errand that succeeds has told the server, and one
that fails with a cancellation has seen one. So the courses of a program can be put one behind the
other (`Rests.course`).
-/

namespace LspClient.Document

open Program Crew

variable {ε α : Type} {i : Nat} {w : World ε} {uri : String} {wire : Wire} {a : Actor}
  {moments moments' later : List (Moment (World ε))} {c c' : Crew (World ε) Errand (Option Outcome)}
  {ys : List (Errand × Option Outcome)} {x : Ask}

/-! ### Rest -/

/-- Nobody works on the document, and if the connection has ended, it is with nothing but that. -/
structure Rests (i : Nat) (uri : String) (wire : Wire)
    (c : Crew (World ε) Errand (Option Outcome)) : Prop where
  attended : ∃ P, Attended i Errand.uri? NoTurn wire P c
  quiet : ∀ k x p, c.clients[k]? = some (x, p) → x.uri? = some uri → c.IsOver (.client k)
  keeps : AllKeep (EndsAsClosed i) c
  ends : (c.state.connection i).calls.EndsClosed

/-- A connection is used for errands and for everything else since it was made. -/
theorem rests_of_run {options : ConnectionOptions} {input output uptime : Nat}
    {process : Option Nat} (hi : i < w.connections.length)
    (hnew : w.connection i = Connection.make options input output process uptime)
    (run : Run (errandRules ε i) (ofState w) moments c)
    (hquiet : ∀ k x p, c.clients[k]? = some (x, p) → x.uri? = some uri → c.IsOver (.client k)) :
    Rests i uri (Wire.along i ⟨[], none⟩ moments) c := by
  have hends : (w.connection i).calls.EndsClosed := by
    rw [hnew]
    nofun
  obtain ⟨hkeeps, hends', -⟩ := endsAsClosed_along (allKeep_ofState w) hends run
  exact ⟨(attended_make hi hnew).run (obeys_errandRules ε i) run, hquiet, hkeeps, hends'⟩

/-- Once the server was told of a document, it is open. -/
theorem Rests.version?_ne_none (h : Rests i uri wire c) (htold : tidingsOf uri wire.written ≠ []) :
    (c.state.connection i).documents.version? uri ≠ none := by
  obtain ⟨P, hattended⟩ := h.attended
  rw [hattended.level (fun _ _ _ hst => hst) h.quiet]
  intro hnone
  have hnil := (hattended.kept.versioned.orderly uri).eq_nil hnone
  obtain ⟨tiding, htiding⟩ := List.exists_mem_of_ne_nil _ htold
  obtain ⟨frame, hframe, htiding⟩ := List.mem_filterMap.1 htiding
  obtain ⟨note, hnote, -⟩ := Option.map_eq_some_iff.1 htiding
  have hmem : note ∈ logOf uri wire.written := List.mem_filterMap.2 ⟨frame, hframe, hnote⟩
  rw [hnil] at hmem
  cases hmem

/-- Nothing changes with the clients who stand at their beginnings. -/
theorem Rests.begun (h : Rests i uri wire c) (xs : List Errand) :
    ∃ P, Attended i Errand.uri? NoTurn wire P (c.join (begun (errandRules ε i) xs)) ∧
      AllKeep (EndsAsClosed i) (c.join (begun (errandRules ε i) xs)) := by
  obtain ⟨P, hattended⟩ := h.attended
  obtain ⟨entering, run, hstill⟩ := exists_run_enter (errandRules ε i) c xs
  obtain ⟨P', h'⟩ := hattended.run (obeys_errandRules ε i) run
  rw [Wire.along_of_still hstill] at h'
  exact ⟨P', h', (run.keeps (keep_errandRules ε i) h.keeps).2⟩

/-! ### Errands that are run -/

/-- Clients were sent behind those who were at rest, and all are over. -/
structure Sends (i : Nat) (uri : String) (wire : Wire)
    (c c' : Crew (World ε) Errand (Option Outcome)) (moments : List (Moment (World ε)))
    (ys : List (Errand × Option Outcome)) : Prop where
  rests : Rests i uri wire c
  run : Run (errandRules ε i) (c.join (begun (errandRules ε i) (ys.map Prod.fst))) moments
    (c'.join (finished ys))
  length : c'.clients.length = c.clients.length

/-- The state is one that was seen. -/
def Seen (moments : List (Moment (World ε))) (w : World ε) : Prop := ∃ m ∈ moments, m.before = w

theorem Saw.seen (h : Saw a moments w) : Seen moments w := by
  obtain ⟨m, hm, -, hw⟩ := h
  exact ⟨m, hm, hw⟩

theorem Seen.left (h : Seen moments w) : Seen (moments ++ later) w := by
  obtain ⟨m, hm, hw⟩ := h
  exact ⟨m, List.mem_append_left _ hm, hw⟩

theorem Seen.right (h : Seen later w) : Seen (moments ++ later) w := by
  obtain ⟨m, hm, hw⟩ := h
  exact ⟨m, List.mem_append_right _ hm, hw⟩

theorem Seen.mirrors (h : Mirrors moments moments') (hw : Seen moments' w) : Seen moments w := by
  obtain ⟨m', hm', rfl⟩ := hw
  obtain ⟨m, hm, hbefore, -⟩ := h.mem hm'
  exact ⟨m, hm, hbefore⟩

/-- A note about the document is what the errands are to say. -/
def Said (i : Nat) (uri : String) (moments : List (Moment (World ε)))
    (ys : List (Errand × Option Outcome)) (frame : Json) : Prop :=
  ∃ tiding, tidingOn uri frame = some tiding ∧ ∃ x, .document x ∈ ys.map Prod.fst ∧
    x.uri? = some uri ∧ Speaks i x.path (Seen moments) x.operation tiding

theorem Said.mirrors {frame : Json} (h : Mirrors moments moments')
    (hsaid : Said i uri moments' ys frame) : Said i uri moments ys frame := by
  obtain ⟨tiding, htiding, x, hmem, huri, hspeaks⟩ := hsaid
  exact ⟨tiding, htiding, x, hmem, huri, hspeaks.mono fun _ => .mirrors h⟩

theorem not_isCancelled_of_isClosed {e : Failure} (h : e.IsClosed) : e.isCancelled = false := by
  cases e <;> first | rfl | cases h

namespace Sends

variable (h : Sends i uri wire c c' moments ys)

include h

theorem there : ∀ m ∈ moments, i < m.before.connections.length := by
  obtain ⟨P, hbegun, -⟩ := h.rests.begun (ys.map Prod.fst)
  exact fun m => hbegun.there (obeys_errandRules ε i) h.run

/-- Who is sent stands behind those who are there. -/
theorem does {j : Nat} {x : Errand} {r : Option Outcome} (hj : ys[j]? = some (x, r)) :
    Does (.client (c.clients.length + j)) (x.program i) moments (.done r) := by
  have hlength := h.length
  obtain ⟨q, hq, hdoes⟩ := h.run.does (k := c.clients.length + j) (x := x)
    (p := (errandRules ε i).program x) (by
      rw [Crew.join, List.getElem?_append_right (by omega), Nat.add_sub_cancel_left, Crew.begun,
        List.map_map, List.getElem?_map, hj]
      rfl)
  rw [Crew.join, List.getElem?_append_right (by omega), hlength, Nat.add_sub_cancel_left, finished,
    List.getElem?_map, hj] at hq
  cases hq
  exact hdoes

/-- At the end there are those who were over before, and have done nothing since, and those who were
sent. -/
theorem client_cases {k : Nat} {x : Errand} {p : Work ε (Option Outcome)}
    (hk : (c'.join (finished ys)).clients[k]? = some (x, p)) (huri : x.uri? = some uri) :
    ∃ r, p = .done r ∧ (Silent (.client k) moments ∨
      ((x, r) ∈ ys ∧ Does (.client k) (x.program i) moments (.done r))) := by
  have hlength := h.length
  rcases Nat.lt_or_ge k c.clients.length with hlt | hge
  · obtain ⟨⟨x₀, p₀⟩, hk₀⟩ : ∃ e, c.clients[k]? = some e := ⟨_, List.getElem?_eq_getElem hlt⟩
    obtain ⟨q, hq, hdoes⟩ := h.run.does (k := k) (x := x₀) (p := p₀) (by
      rw [Crew.join, List.getElem?_append_left hlt, hk₀])
    cases hk.symm.trans hq
    obtain ⟨_, r, hover⟩ := h.rests.quiet k x p₀ hk₀ huri
    cases hk₀.symm.trans hover
    obtain ⟨rfl, hsilent⟩ := hdoes.done_inv
    exact ⟨r, rfl, .inl hsilent⟩
  · obtain ⟨j, rfl⟩ := Nat.exists_eq_add_of_le hge
    rw [Crew.join, List.getElem?_append_right (by omega), hlength, Nat.add_sub_cancel_left,
      finished, List.getElem?_map] at hk
    obtain ⟨⟨y, r⟩, hy, heq⟩ := Option.map_eq_some_iff.1 hk
    cases heq
    exact ⟨r, rfl, .inr ⟨List.mem_of_getElem? hy, h.does hy⟩⟩

theorem speech_of_does {r : Option Outcome} (huri : x.uri? = some uri)
    (hdoes : Does a (Errand.program i (.document x)) moments (.done r)) :
    ∃ outcome, r = some outcome ∧ Speech a i uri x.path x.token moments x.operation outcome := by
  have hi := h.there
  obtain ⟨working, outcome, last, rfl, hwork, hdoes⟩ := hdoes.bind_inv
  obtain ⟨rfl, hlast⟩ := hdoes.pure_inv
  have hpart : working <:+: working ++ last := ⟨[], last, rfl⟩
  exact ⟨outcome, rfl, (speech_program (fun m hm => hi m (hpart.subset hm)) huri hwork).mono hpart
    fun F hF => hF.append (voices_of_silent hlast)⟩

theorem speech {r : Option Outcome} (hmem : (.document x, r) ∈ ys) (huri : x.uri? = some uri) :
    ∃ k outcome, r = some outcome ∧
      Speech (.client k) i uri x.path x.token moments x.operation outcome := by
  obtain ⟨j, hj⟩ := List.getElem?_of_mem hmem
  obtain ⟨outcome, rfl, hspeech⟩ := h.speech_of_does huri (h.does hj)
  exact ⟨_, outcome, rfl, hspeech⟩

/-- What is posted about the document is what the errands are to say. -/
theorem voices (k : Nat) (x : Errand) (p : Work ε (Option Outcome))
    (hk : (c'.join (finished ys)).clients[k]? = some (x, p)) (huri : x.uri? = some uri) :
    Voices (.client k) i (Said i uri moments ys) moments := by
  obtain ⟨r, -, hsilent | ⟨hmem, hdoes⟩⟩ := h.client_cases hk huri
  · exact voices_of_silent hsilent
  · cases x with
    | request => cases huri
    | document x =>
      obtain ⟨outcome, -, hspeech⟩ := h.speech_of_does huri hdoes
      refine hspeech.voices.mono ?_
      rintro frame ⟨tiding, htiding, hspeaks⟩
      exact ⟨tiding, htiding, x, List.mem_map_of_mem hmem, huri, hspeaks.mono fun _ => Saw.seen⟩

theorem tells : ∃ P,
    Attended i Errand.uri? NoTurn (wire.along i moments) P (c'.join (finished ys)) ∧
    ∀ frame ∈ news i wire moments, noteOn uri frame ≠ none → Said i uri moments ys frame := by
  obtain ⟨P, hattended⟩ := h.rests.attended
  obtain ⟨P₁, hbegun, -⟩ := h.rests.begun (ys.map Prod.fst)
  obtain ⟨P₂, h₂, htells⟩ := hbegun.tells (obeys_errandRules ε i)
    (hattended.settled (fun _ _ _ hst => hst) h.rests.quiet) h.run h.voices
  obtain ⟨new, hnew, hkinds⟩ := htells.written
  rw [written_along] at hnew
  obtain rfl := List.append_cancel_left hnew
  exact ⟨P₂, h₂, hkinds⟩

theorem delivered {frame : Json} (hdelivered : Delivered a i frame moments)
    (hnote : noteOn uri frame ≠ none) : frame ∈ news i wire moments := by
  obtain ⟨P, hbegun, -⟩ := h.rests.begun (ys.map Prod.fst)
  exact hbegun.delivered (obeys_errandRules ε i) h.run hdelivered hnote

theorem ends : AllKeep (EndsAsClosed i) (c'.join (finished ys)) ∧
    (c'.state.connection i).calls.EndsClosed ∧
    ∀ m ∈ moments, (m.before.connection i).calls.EndsClosed := by
  obtain ⟨P, -, hkeeps⟩ := h.rests.begun (ys.map Prod.fst)
  exact endsAsClosed_along hkeeps h.rests.ends h.run

theorem rests_after : Rests i uri (wire.along i moments) (c'.join (finished ys)) := by
  obtain ⟨P, hattended, -⟩ := h.tells
  refine ⟨⟨P, hattended⟩, fun k x p hk huri => ?_, h.ends.1, h.ends.2.1⟩
  obtain ⟨r, rfl, -⟩ := h.client_cases hk huri
  exact ⟨x, r, hk⟩

theorem stays_open (hopen : (c.state.connection i).documents.version? uri ≠ none)
    (hw : Seen moments w) : (w.connection i).documents.version? uri ≠ none := by
  obtain ⟨P, hbegun, -⟩ := h.rests.begun (ys.map Prod.fst)
  obtain ⟨m, hm, rfl⟩ := hw
  exact hbegun.stays_open (obeys_errandRules ε i) h.run hopen hm

end Sends

/-! ### Courses -/

/-- What the server has been told when an operation has succeeded, and what it had been told
before. -/
def ToldBy (before told : List Tiding) : Operation → Prop
  | .syncContent content => .text (some content) ∈ told
  | .notifySaved => before ≠ [] → ∃ content, .saved content ∈ told
  | .ensureOpen => True
  | .refresh => True

/-- What became of errands in moments in which the frames `told` were written after those
`before`. -/
structure Course (i : Nat) (uri : String) (moments : List (Moment (World ε)))
    (before told : List Json) (ys : List (Errand × Option Outcome)) : Prop where
  said : ∀ frame ∈ told, noteOn uri frame ≠ none → Said i uri moments ys frame
  told : ∀ x outcome, (.document x, some (.ok outcome)) ∈ ys → x.uri? = some uri →
    ToldBy (tidingsOf uri before) (tidingsOf uri told) x.operation
  stopped : ∀ x e, (.document x, some (.error e)) ∈ ys → x.uri? = some uri →
    e.isCancelled = true → ∃ w, Seen moments w ∧ w.isCancelled x.token = true

theorem Sends.course (h : Sends i uri wire c c' moments ys) :
    Course i uri moments wire.written (news i wire moments) ys where
  said := by
    obtain ⟨P, -, hsaid⟩ := h.tells
    exact hsaid
  told x outcome hmem huri := by
    obtain ⟨k, _, heq, hspeech⟩ := h.speech hmem huri
    cases heq
    have htold := hspeech.told outcome rfl
    -- opening and refreshing promise nothing of the text
    cases hop : x.operation with
    | ensureOpen => trivial
    | refresh => trivial
    | syncContent content =>
      rw [hop] at htold
      obtain ⟨frame, hframe, hdelivered⟩ := htold
      exact List.mem_filterMap.2
        ⟨frame, h.delivered hdelivered (noteOn_of_tidingOn hframe), hframe⟩
    | notifySaved =>
      intro hbefore
      rw [hop] at htold
      rcases htold with ⟨w, hw, hnone⟩ | ⟨content, frame, hframe, hdelivered⟩
      · exact absurd hnone (h.stays_open (h.rests.version?_ne_none hbefore) hw.seen)
      · exact ⟨content, List.mem_filterMap.2
          ⟨frame, h.delivered hdelivered (noteOn_of_tidingOn hframe), hframe⟩⟩
  stopped x e hmem huri hcancelled := by
    obtain ⟨k, _, heq, hspeech⟩ := h.speech hmem huri
    cases heq
    obtain ⟨w, hw, hstops⟩ := hspeech.stopped e rfl hcancelled
    refine ⟨w, hw.seen, hstops.resolve_right ?_⟩
    obtain ⟨m, hm, rfl⟩ := hw.seen
    have hclosed := Calls.isClosed_closedError (h.ends.2.2 m hm)
    simp [not_isCancelled_of_isClosed hclosed]

/-- A program goes from rest to rest. -/
theorem Rests.course {S : α → List (Option Outcome) → Prop} {xs : List Errand} {p : Work ε α}
    {x : α} {front : List (Errand × Work ε (Option Outcome))} (h : Rests i uri wire (c.join front))
    (hp : Hosted (errandRules ε i) S (Crew.begun (errandRules ε i) xs) p)
    (run : Amid (errandRules ε i) c p moments c' (.done x)) :
    ∃ ys, ys.map Prod.fst = xs ∧ S x (ys.map Prod.snd) ∧
      Rests i uri (wire.along i moments) (c'.join (front ++ finished ys)) ∧
      Course i uri moments wire.written (news i wire moments) ys := by
  have hjoin (c : Crew (World ε) Errand (Option Outcome))
      (l : List (Errand × Work ε (Option Outcome))) :
      c.join (front ++ l) = (c.join front).join l := by
    simp [Crew.join]
  obtain ⟨ys, moments', rfl, hS, hrun, hmirrors⟩ :=
    run.hosted_done Spares.refl (fun _ hq => Or.inr hq) hp front
  rw [hjoin, hjoin] at hrun
  have hsends : Sends i uri wire (c.join front) (c'.join front) moments' ys :=
    ⟨h, hrun, by simp [Crew.join, run.length_clients]⟩
  have hrests := hsends.rests_after
  have hcourse := hsends.course
  rw [news, Wire.along_of_mirrors hmirrors] at hcourse
  rw [Wire.along_of_mirrors hmirrors, ← hjoin] at hrests
  refine ⟨ys, rfl, hS, hrests, fun frame hframe hnote => ?_, hcourse.told, ?_⟩
  · exact (hcourse.said frame hframe hnote).mirrors hmirrors
  · intro x e hmem huri hcancelled
    obtain ⟨w, hw, hstopped⟩ := hcourse.stopped x e hmem huri hcancelled
    exact ⟨w, hw.mirrors hmirrors, hstopped⟩

end LspClient.Document
