import LspClient.Proofs.Document.Telling

/-!
# What the operations on documents say

An operation that is over has said nothing of its document but what it is to say (`Speaks`): the
content it was given, or what it read from the file. If it succeeded, the server was told (`Told`). It
fails with a cancellation only where it saw one (`Stops`).
-/

namespace LspClient.Document

open Program Crew

variable {ε : Type} {i : Nat} {a : Actor} {token : Token} {w : World ε} {uri : String}
  {path : Path} {S S' : World ε → Prop} {operation : Operation} {tiding : Tiding} {r : Outcome}
  {part moments : List (Moment (World ε))}

/-- What an operation may say that sees no other states than these. -/
inductive Speaks (i : Nat) (path : Path) (S : World ε → Prop) : Operation → Tiding → Prop
  | given {content : String} : Speaks i path S (.syncContent content) (.text (some content))
  | read {operation : Operation} {w : World ε} {content : String} (hw : S w)
      (h : w.files.readText path = .ok content)
      (hop : operation = .ensureOpen ∨ operation = .refresh) :
      Speaks i path S operation (.text (some content))
  | saved {operation : Operation} {w : World ε} {content : String} (hw : S w)
      (h : w.files.readText path = .ok content)
      (hop : operation = .notifySaved ∨ operation = .refresh) :
      Speaks i path S operation (.saved (some content))
  | savedAlone {operation : Operation} {w : World ε} (hw : S w)
      (h : (w.connection i).wantsTextOnSave = false ∨ w.files.readText path = .error .notFound)
      (hop : operation = .notifySaved ∨ operation = .refresh) :
      Speaks i path S operation (.saved none)

/-- What the server has been told when an operation succeeds. -/
def Told (a : Actor) (i : Nat) (uri : String) (moments : List (Moment (World ε))) :
    Operation → Prop
  | .syncContent content => ∃ frame, IsText uri content frame ∧ Delivered a i frame moments
  | .notifySaved => (∃ w, Saw a moments w ∧ (w.connection i).documents.version? uri = none) ∨
      ∃ content frame, IsSaved uri content frame ∧ Delivered a i frame moments
  | .ensureOpen => True
  | .refresh => True

/-- An operation may fail with a cancellation here. -/
def Stops (i : Nat) (token : Token) (w : World ε) : Prop :=
  w.isCancelled token = true ∨ (w.connection i).calls.closedError.isCancelled = true

/-- An operation that is over. -/
structure Speech (a : Actor) (i : Nat) (uri : String) (path : Path) (token : Token)
    (moments : List (Moment (World ε))) (operation : Operation) (r : Outcome) : Prop where
  voices : Voices a i (fun frame => ∃ tiding, tidingOn uri frame = some tiding ∧
    Speaks i path (Saw a moments) operation tiding) moments
  told : ∀ outcome, r = .ok outcome → Told a i uri moments operation
  stopped : ∀ e, r = .error e → e.isCancelled = true → ∃ w, Saw a moments w ∧ Stops i token w

theorem Speaks.mono (hS : ∀ w, S w → S' w) (h : Speaks i path S operation tiding) :
    Speaks i path S' operation tiding := by
  cases h with
  | given => exact .given
  | read hw hread hop => exact .read (hS _ hw) hread hop
  | saved hw hread hop => exact .saved (hS _ hw) hread hop
  | savedAlone hw h hop => exact .savedAlone (hS _ hw) h hop

theorem Told.mono (h : Told a i uri part operation) (hpart : part <:+: moments) :
    Told a i uri moments operation := by
  cases operation with
  | ensureOpen => trivial
  | refresh => trivial
  | syncContent content =>
    obtain ⟨frame, hframe, hdelivered⟩ := h
    exact ⟨frame, hframe, hdelivered.mono hpart⟩
  | notifySaved =>
    refine h.imp (fun ⟨w, hw, hversion⟩ => ⟨w, hw.mono hpart, hversion⟩) ?_
    rintro ⟨content, frame, hframe, hdelivered⟩
    exact ⟨content, frame, hframe, hdelivered.mono hpart⟩

theorem stops_of_sent {F : Json → Prop} (h : Sent a i F moments r) {e : Failure}
    (he : r = .error e) (hcancelled : e.isCancelled = true) :
    ∃ w, Saw a moments w ∧ Stops i token w := by
  obtain ⟨w, hw, hended⟩ := h.ended e he hcancelled
  exact ⟨w, hw, .inr hended⟩

namespace Speech

theorem mono (h : Speech a i uri path token part operation r) (hpart : part <:+: moments)
    (hvoices : ∀ F, Voices a i F part → Voices a i F moments) :
    Speech a i uri path token moments operation r where
  voices := by
    refine hvoices _ (h.voices.mono ?_)
    rintro frame ⟨tiding, htiding, hspeaks⟩
    exact ⟨tiding, htiding, hspeaks.mono fun w hw => hw.mono hpart⟩
  told outcome hok := (h.told outcome hok).mono hpart
  stopped e he hcancelled := by
    obtain ⟨w, hw, hstops⟩ := h.stopped e he hcancelled
    exact ⟨w, hw.mono hpart, hstops⟩

/-- An operation that has sent nothing, because it could not or had nothing to send. -/
theorem of_unsent (hvoices : ∀ F, Voices a i F moments)
    (htold : ∀ outcome, r = .ok outcome → Told a i uri moments operation)
    (herror : ∀ e, r = .error e → e.isCancelled = false) :
    Speech a i uri path token moments operation r where
  voices := hvoices _
  told := htold
  stopped e he hcancelled := by
    rw [herror e he] at hcancelled
    cases hcancelled

end Speech

theorem speech_withLock {locked : Work ε Outcome}
    (hlocked : ∀ part, part <:+: moments → Does a locked part (.done r) →
      Speech a i uri path token part operation r)
    (h : Does a (withLock i uri token locked) moments (.done r)) :
    Speech a i uri path token moments operation r := by
  rcases does_withLock h with ⟨part, hpart, hdoes, hvoices⟩ | ⟨hvoices, rfl, w, hw, hcancelled⟩
  · exact (hlocked part hpart hdoes).mono hpart hvoices
  · exact ⟨hvoices _, nofun, fun _ _ _ => ⟨w, hw, .inl hcancelled⟩⟩

/-! ### Operations that hold the lock -/

section Locked

variable (hi : ∀ m ∈ moments, i < m.before.connections.length)

include hi

theorem speech_syncLocked {content : String}
    (h : Does a (syncLocked i uri path content) moments (.done r)) :
    Speech a i uri path token moments (.syncContent content) r := by
  obtain ⟨dropping, _, pushing, rfl, hdrop, hpush⟩ := h.bind_inv
  have hpart : pushing <:+: dropping ++ pushing := ⟨dropping, [], by simp⟩
  have hsent := (does_push (fun m hm => hi m (hpart.subset hm)) hpush).mono (fun _ h => h) hpart
  have hdropped : Voices a i (IsText uri content) dropping :=
    voices_of_keeps hdrop (postsOnly_update fun _ => rfl)
  refine ⟨?_, fun outcome hok => hsent.delivered outcome hok, fun e he => stops_of_sent hsent he⟩
  exact (hdropped.append (voices_of_keeps hpush postsOnly_push)).mono
    fun frame hframe => ⟨_, hframe, .given⟩

theorem speech_openLocked (h : Does a (openLocked i uri path) moments (.done r)) :
    Speech a i uri path token moments .ensureOpen r := by
  obtain ⟨looking, version, rest, rfl, hversion, h⟩ := h.bind_inv
  have hlooking (F : Json → Prop) : Voices a i F looking :=
    voices_of_keeps hversion postsOnly_version?
  cases version with
  | some _ =>
    obtain ⟨rfl, hrest⟩ := h.pure_inv
    exact .of_unsent (fun F => (hlooking F).append (voices_of_silent hrest)) (fun _ _ => trivial)
      nofun
  | none =>
    obtain ⟨reading, read, rest, rfl, hread, h⟩ := h.bind_inv
    have hreading (F : Json → Prop) : Voices a i F reading :=
      voices_of_keeps hread postsOnly_readIfExists
    obtain ⟨w, hw, hresult⟩ := does_readIfExists hread
    have hseen : Saw a (looking ++ (reading ++ rest)) w := hw.mono ⟨looking, rest, by simp⟩
    -- only a file that can be read is told of
    cases hresult with
    | failed e =>
      obtain ⟨rfl, hrest⟩ := h.pure_inv
      refine .of_unsent (fun F => (hlooking F).append ((hreading F).append
        (voices_of_silent hrest))) (fun _ _ => trivial) fun e' he' => ?_
      cases he'
      rfl
    | missing hfile =>
      obtain ⟨rfl, hrest⟩ := h.pure_inv
      exact .of_unsent (fun F => (hlooking F).append ((hreading F).append
        (voices_of_silent hrest))) (fun _ _ => trivial) nofun
    | @text content hfile =>
      obtain ⟨sending, sent, last, rfl, hsend, h⟩ := h.bind_inv
      obtain ⟨rfl, hlast⟩ := h.pure_inv
      have hpart : sending <:+: looking ++ (reading ++ (sending ++ last)) :=
        ⟨looking ++ reading, last, by simp⟩
      have hsent := ((does_sendOpen (fun m hm => hi m (hpart.subset hm)) hsend).mono
        (fun _ h => h) hpart).map fun () => SyncOutcome.opened
      refine ⟨?_, fun _ _ => trivial, fun e he => stops_of_sent hsent he⟩
      exact ((hlooking _).append ((hreading _).append ((voices_of_keeps hsend
        postsOnly_sendOpen).append (voices_of_silent hlast)))).mono
        fun frame hframe => ⟨_, hframe, .read hseen hfile (.inl rfl)⟩

/-- To tell that the document was saved, last of all. -/
theorem sent_of_sendSave {content : Option String} {outcome : SyncOutcome}
    (h : Does a (do return (← sendSave i uri content).map fun () => outcome) moments (.done r)) :
    Voices a i (IsSaved uri content) moments ∧ Sent a i (IsSaved uri content) moments r := by
  obtain ⟨sending, sent, last, rfl, hsend, h⟩ := h.bind_inv
  obtain ⟨rfl, hlast⟩ := h.pure_inv
  have hpart : sending <:+: sending ++ last := ⟨[], last, rfl⟩
  exact ⟨(voices_of_keeps hsend postsOnly_sendSave).append (voices_of_silent hlast),
    ((does_sendSave (fun m hm => hi m (hpart.subset hm)) hsend).mono (fun _ h => h) hpart).map _⟩

theorem speech_saveLocked (h : Does a (saveLocked i uri path) moments (.done r)) :
    Speech a i uri path token moments .notifySaved r := by
  obtain ⟨looking, version, rest, rfl, hversion, h⟩ := h.bind_inv
  have hlooking (F : Json → Prop) : Voices a i F looking :=
    voices_of_keeps hversion postsOnly_version?
  obtain ⟨w, hw, rfl⟩ := does_version? hversion
  cases hopen : (w.connection i).documents.version? uri with
  | none =>
    rw [hopen] at h
    obtain ⟨rfl, hrest⟩ := h.pure_inv
    exact .of_unsent (fun F => (hlooking F).append (voices_of_silent hrest))
      (fun _ _ => .inl ⟨w, hw.mono ⟨[], rest, rfl⟩, hopen⟩) nofun
  | some _ =>
    rw [hopen] at h
    obtain ⟨asking, c, rest, rfl, hask, h⟩ := h.bind_inv
    have hasking (F : Json → Prop) : Voices a i F asking := voices_of_keeps hask postsOnly_look
    obtain ⟨m, hm, hactor, rfl⟩ := hask.look_inv
    -- what is left when the text is known that goes with the note
    have hsave {before saving : List (Moment (World ε))} {content : Option String}
        (hrest : rest = before ++ saving) (hbefore : ∀ F, Voices a i F before)
        (hspeaks : Speaks i path (Saw a (looking ++ (asking ++ rest))) .notifySaved
          (.saved content))
        (hsend : Does a (do return (← sendSave i uri content).map fun () => SyncOutcome.saved)
          saving (.done r)) :
        Speech a i uri path token (looking ++ (asking ++ rest)) .notifySaved r := by
      subst hrest
      have hpart : saving <:+: looking ++ (asking ++ (before ++ saving)) :=
        ⟨looking ++ (asking ++ before), [], by simp⟩
      obtain ⟨hvoices, hsent⟩ := sent_of_sendSave (fun m hm => hi m (hpart.subset hm)) hsend
      have hsent := hsent.mono (fun _ h => h) hpart
      refine ⟨?_, fun outcome hok => ?_, fun e he => stops_of_sent hsent he⟩
      · exact ((hlooking _).append ((hasking _).append ((hbefore _).append hvoices))).mono
          fun frame hframe => ⟨_, hframe, hspeaks⟩
      · obtain ⟨frame, hframe, hdelivered⟩ := hsent.delivered outcome hok
        exact .inr ⟨content, frame, hframe, hdelivered⟩
    change Does a (if (m.before.connection i).wantsTextOnSave = true then _ else _) _ _ at h
    split at h
    · obtain ⟨reading, read, last, rfl, hread, h⟩ := h.bind_inv
      have hreading (F : Json → Prop) : Voices a i F reading :=
        voices_of_keeps hread postsOnly_readIfExists
      obtain ⟨w', hw', hresult⟩ := does_readIfExists hread
      have hseen : Saw a (looking ++ (asking ++ (reading ++ last))) w' :=
        hw'.mono ⟨looking ++ asking, last, by simp⟩
      cases hresult with
      | failed e =>
        obtain ⟨rfl, hlast⟩ := h.pure_inv
        refine .of_unsent (fun F => (hlooking F).append ((hasking F).append ((hreading F).append
          (voices_of_silent hlast)))) nofun fun e' he' => ?_
        cases he'
        rfl
      | missing hfile =>
        exact hsave rfl hreading (.savedAlone hseen (.inr hfile) (.inl rfl)) h
      | text hfile => exact hsave rfl hreading (.saved hseen hfile (.inl rfl)) h
    · next hwants =>
      have hseen : Saw a (looking ++ (asking ++ rest)) m.before := ⟨m, by simp [hm], hactor, rfl⟩
      exact hsave (List.nil_append _).symm (fun _ => nofun)
        (.savedAlone hseen (.inl (by simpa using hwants)) (.inl rfl)) h

theorem speech_refreshLocked (h : Does a (refreshLocked i uri path) moments (.done r)) :
    Speech a i uri path token moments .refresh r := by
  obtain ⟨reading, read, rest, rfl, hread, h⟩ := h.bind_inv
  have hreading (F : Json → Prop) : Voices a i F reading :=
    voices_of_keeps hread postsOnly_readIfExists
  obtain ⟨w, hw, hresult⟩ := does_readIfExists hread
  have hseen : Saw a (reading ++ rest) w := hw.mono ⟨[], rest, rfl⟩
  cases hresult with
  | failed e =>
    obtain ⟨rfl, hrest⟩ := h.pure_inv
    refine .of_unsent (fun F => (hreading F).append (voices_of_silent hrest)) (fun _ _ => trivial)
      fun e' he' => ?_
    cases he'
    rfl
  | missing hfile =>
    obtain ⟨rfl, hrest⟩ := h.pure_inv
    exact .of_unsent (fun F => (hreading F).append (voices_of_silent hrest)) (fun _ _ => trivial)
      nofun
  | @text content hfile =>
    obtain ⟨pushing, pushed, rest, rfl, hpush, h⟩ := h.bind_inv
    have hpart : pushing <:+: reading ++ (pushing ++ rest) := ⟨reading, rest, by simp⟩
    have htext : Voices a i (fun frame => ∃ tiding, tidingOn uri frame = some tiding ∧
        Speaks i path (Saw a (reading ++ (pushing ++ rest))) .refresh tiding) pushing :=
      (voices_of_keeps hpush postsOnly_push).mono fun frame hframe =>
        ⟨_, hframe, .read hseen hfile (.inr rfl)⟩
    have hsent := (does_push (fun m hm => hi m (hpart.subset hm)) hpush).mono (fun _ h => h) hpart
    cases pushed with
    | error e =>
      obtain ⟨rfl, hrest⟩ := h.pure_inv
      exact ⟨(hreading _).append (htext.append (voices_of_silent hrest)), fun _ _ => trivial,
        fun e he => stops_of_sent hsent he⟩
    | ok outcome =>
      obtain ⟨asking, c, saving, rfl, hask, h⟩ := h.bind_inv
      have hasking (F : Json → Prop) : Voices a i F asking := voices_of_keeps hask postsOnly_look
      obtain ⟨m, hm, hactor, rfl⟩ := hask.look_inv
      have hlast : saving <:+: reading ++ (pushing ++ (asking ++ saving)) :=
        ⟨reading ++ (pushing ++ asking), [], by simp⟩
      obtain ⟨hvoices, hsaved⟩ := sent_of_sendSave (fun m hm => hi m (hlast.subset hm)) h
      refine ⟨(hreading _).append (htext.append ((hasking _).append (hvoices.mono ?_))),
        fun _ _ => trivial, fun e he => stops_of_sent (hsaved.mono (fun _ h => h) hlast) he⟩
      intro frame hframe
      refine ⟨_, hframe, ?_⟩
      split
      · exact .saved hseen hfile (.inr rfl)
      · next hwants =>
        have hseen : Saw a (reading ++ (pushing ++ (asking ++ saving))) m.before :=
          ⟨m, by simp [hm], hactor, rfl⟩
        exact .savedAlone hseen (.inl (by simpa using hwants)) (.inr rfl)

/-! ### All operations -/

theorem speech_program {x : Ask} (huri : x.uri? = some uri)
    (h : Does a (x.program i) moments (.done r)) :
    Speech a i uri x.path x.token moments x.operation r := by
  have hi' (part : List (Moment (World ε))) (hpart : part <:+: moments) :
      ∀ m ∈ part, i < m.before.connections.length := fun m hm => hi m (hpart.subset hm)
  obtain ⟨operation, path, token⟩ := x
  unfold Ask.uri? at huri
  cases hpath : Uri.ofPath path with
  | error e => simp [hpath, Except.toOption] at huri
  | ok uri' =>
    obtain rfl : uri' = uri := by simpa [hpath, Except.toOption] using huri
    unfold Ask.program ensureOpen syncContent notifySaved refresh at h
    rw [hpath] at h
    cases operation with
    | ensureOpen =>
      exact speech_withLock (fun part hpart => speech_openLocked (hi' part hpart)) h
    | syncContent content =>
      exact speech_withLock (fun part hpart => speech_syncLocked (hi' part hpart)) h
    | notifySaved =>
      exact speech_withLock (fun part hpart => speech_saveLocked (hi' part hpart)) h
    | refresh =>
      exact speech_withLock (fun part hpart => speech_refreshLocked (hi' part hpart)) h

end Locked

end LspClient.Document
