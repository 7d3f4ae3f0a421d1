import LspClient.Diagnostic.Collect
import LspClient.Proofs.Document.Operations
import LspClient.Proofs.Program.Traces

/-!
# How a wait for diagnostics goes on

Time goes on, and a connection that has ended stays so (`Later`). Whatever is done on a connection,
but for a published frame that is taken in, moreover leaves its diagnostics alone or drops some
(`Mild`); so are all steps of its programs, of the operations on its documents, and of its writer.

A wait goes on by rounds. In each it looks at the cache, at the connection and at the clock, and
either returns what it saw in the cache or sleeps until the next round. `Stands` says where it may
stand, whatever the others do, and what it has seen by then, how many of its steps ago. There are
always more rounds left than there is time for, so a wait only returns what is not fresh if the time
is over or the connection has ended; then it does so soon (`Stands.finishes`).
-/

namespace LspClient

open Program

namespace Connection

variable {ε α : Type} {i : Nat} {token : Token} {w w' w'' : World ε}

structure Later (i : Nat) (w w' : World ε) : Prop where
  clock : w.clock ≤ w'.clock
  there : i < w.connections.length → i < w'.connections.length
  ended : i < w.connections.length → (w.connection i).isAlive = false →
    (w'.connection i).isAlive = false

theorem Later.refl (w : World ε) : Later i w w := ⟨Nat.le_refl _, id, fun _ => id⟩

structure Mild (i : Nat) (w w' : World ε) : Prop extends Later i w w' where
  cache : i < w.connections.length → (w.connection i).cache.Loses (w'.connection i).cache

theorem Mild.refl (w : World ε) : Mild i w w := ⟨.refl w, fun _ => .refl _⟩

theorem Mild.of_calm (hclock : w'.clock = w.clock)
    (hlength : w'.connections.length = w.connections.length)
    (h : Calm (w.connection i) (w'.connection i)) : Mild i w w' where
  clock := Nat.le_of_eq hclock.symm
  there hi := hlength ▸ hi
  ended _ := h.ended
  cache _ := h.cache

theorem Mild.setConnection {c : Connection} (h : Calm (w.connection i) c) :
    Mild i w (w.setConnection i c) := by
  refine .of_calm rfl List.length_set ?_
  rcases connection_setConnection_cases w i c with heq | heq
  · rwa [heq]
  · rw [heq]
    exact .of_eq rfl rfl rfl

theorem Aside.mild (h : Aside i w w') : Mild i w w' := .of_calm h.clock h.length h.apart.calm

theorem Posts.mild (h : Posts i w w') : Mild i w w' := by
  obtain ⟨outbox, writing, heq⟩ := h.connection
  refine .of_calm h.clock h.length ?_
  rw [heq]
  exact .of_eq rfl rfl rfl

/-- The requests of a connection, its shutdown, and its services but for the reader. -/
theorem mild_parts : Parts (ε := ε) i fun p => Keeps (Mild i) p :=
  parts_keeps (fun _ _ h => h.mild) fun _ _ h => h.mild

theorem mild_notify {method : String} {params : Option Json} :
    Keeps (Mild i) (notify i method params : Work ε (Except Failure Unit)) :=
  keeps_notify (fun _ _ h => h.mild) fun _ _ h => h.mild

theorem mild_writer : Keeps (Mild i) (writer i : Work ε Bool) :=
  keeps_writer (fun _ _ h => h.mild) fun _ _ h => h.mild

/-- The operations on documents. -/
theorem mild_documents : Document.Parts (ε := ε) i token fun p => Keeps (Mild i) p where
  pure := Keeps.pure
  bind := Keeps.bind
  look := Keeps.look .refl
  update h := Keeps.update fun w => .setConnection (h _)
  join _ := Keeps.act fun _ => .setConnection (.of_eq rfl rfl rfl)
  lock _ := keeps_within .refl fun w r w' hs => by
    obtain ⟨⟨r', c'⟩, hc', heq⟩ := Option.map_eq_some_iff.1 hs
    cases heq
    obtain ⟨locks, -, heq⟩ := Option.map_eq_some_iff.1 hc'
    cases heq
    exact .setConnection (.of_eq rfl rfl rfl)
  read _ := mild_parts.inBackground fun w => .refl w
  notify _ _ := mild_notify

end Connection

end LspClient

namespace LspClient.Diagnostics

open Program
open Connection (Later)

variable {ε : Type} {i : Nat}

/-- What a wait for diagnostics is asked for. -/
structure Wait where
  uri : String
  timeout : Nat
  floor : Option Nat
  token : Token

namespace Wait

def program (i : Nat) (q : Wait) : Work ε (Except Failure (List Diagnostic)) :=
  waitForFresh i q.uri q.timeout q.floor q.token

/-- What is cached for the URI. -/
def sees (i : Nat) (q : Wait) (w : World ε) : Option CachedDiagnostics :=
  (w.connection i).cache.get? q.uri

/-- What is returned when that was seen in the cache. -/
def answer (cached : Option CachedDiagnostics) : List Diagnostic := (cached.map (·.items)).getD []

/-! ### A round, step by step -/

section Round

variable (i : Nat) (q : Wait) (deadline rounds : Nat)

def polls : Work ε (Except Failure (List Diagnostic)) :=
  waitUntilFresh i q.uri deadline q.floor q.token rounds

def sleeps (due : Nat) : Work ε (Except Failure (List Diagnostic)) := do
  match ← Work.sleepWithin (Limit.ofToken q.token) due with
  | .error e => return .error e
  | .ok () => q.polls i deadline rounds

def readsClock (cached : Option CachedDiagnostics) (alive : Bool) :
    Work ε (Except Failure (List Diagnostic)) := do
  let now ← Work.now
  if DiagnosticsCache.isFresh cached q.floor || !alive || deadline ≤ now then
    return .ok (answer cached)
  else q.sleeps i deadline rounds (min deadline (now + pollInterval))

def asksAlive (cached : Option CachedDiagnostics) : Work ε (Except Failure (List Diagnostic)) := do
  q.readsClock i deadline rounds cached (← Work.connection i).isAlive

theorem polls_succ : (q.polls i deadline (rounds + 1) : Work ε _) =
    Work.connection i >>= fun c => q.asksAlive i deadline rounds (c.cache.get? q.uri) := rfl

theorem program_eq : (q.program i : Work ε _) = Work.now >>= fun now =>
    q.polls i (now + q.timeout) (q.timeout / pollInterval + 2) := rfl

variable {i q deadline rounds} {cached : Option CachedDiagnostics} {alive : Bool}

/-- When its time is over, a wait that reads the clock returns. -/
theorem step_readsClock (w : World ε) (h : deadline ≤ w.clock) :
    Step w (q.readsClock i deadline rounds cached alive) w (pure (.ok (answer cached))) [] := by
  refine step_act_bind.2 ⟨rfl, ?_, rfl⟩
  rw [if_pos (by simp [h])]

/-- Where a wait stands that has looked at the cache, so many of its steps ago: it asks whether the
connection is alive, and then what the time is. -/
inductive Since (i : Nat) (q : Wait) (deadline : Nat) (cached : Option CachedDiagnostics) :
    Nat → Work ε (Except Failure (List Diagnostic)) → Prop
  | asksAlive {rounds : Nat} : Since i q deadline cached 0 (q.asksAlive i deadline rounds cached)
  | readsClock {rounds : Nat} {alive : Bool} :
      Since i q deadline cached 1 (q.readsClock i deadline rounds cached alive)
  | decided {n : Nat} {p : Work ε (Except Failure (List Diagnostic))} (h : 2 ≤ n) :
      Since i q deadline cached n p

/-- Up to then it is not about to look at the cache again. -/
theorem Since.ne_polls {n : Nat} {p : Work ε (Except Failure (List Diagnostic))}
    (h : q.Since i deadline cached n p) (hn : n ≤ 1) (w : World ε) :
    p ≠ q.polls i deadline (rounds + 1) := by
  -- at the deadline the three places differ in how many steps are left
  let late : World ε := { w with clock := deadline }
  have hclock (rounds : Nat) (alive : Bool) :
      Step late (q.readsClock i deadline rounds cached alive) late
        (pure (.ok (answer cached))) [] :=
    step_readsClock late (Nat.le_refl _)
  rintro heq
  cases h with
  | @asksAlive rounds' =>
    have hs : Step late (q.asksAlive i deadline rounds' cached) late
        (q.readsClock i deadline rounds' cached (late.connection i).isAlive) [] :=
      step_act_bind.2 ⟨rfl, rfl, rfl⟩
    rw [heq, polls_succ] at hs
    have hlast := hclock rounds' (late.connection i).isAlive
    rw [(step_act_bind.1 hs).2.1] at hlast
    cases (step_act_bind.1 hlast).2.1
  | @readsClock rounds' alive =>
    have hlast := hclock rounds' alive
    rw [heq, polls_succ] at hlast
    cases (step_act_bind.1 hlast).2.1
  | decided => omega

theorem Since.step {n : Nat} {w w' : World ε} {p p' : Work ε (Except Failure (List Diagnostic))}
    {started : List (Work ε Bool)} (h : q.Since i deadline cached n p)
    (hs : Step w p w' p' started) : q.Since i deadline cached (n + 1) p' := by
  cases h with
  | asksAlive =>
    obtain ⟨-, rfl, -⟩ := step_act_bind.1 hs
    exact .readsClock
  | readsClock => exact .decided (Nat.le_refl _)
  | decided h => exact .decided (Nat.le_succ_of_le h)

end Round

/-! ### Where a wait stands -/

/-- There are more rounds left than there is time for. -/
def Enough (deadline rounds clock : Nat) : Prop :=
  0 < rounds ∧ (deadline ≤ clock ∨ deadline + pollInterval < clock + pollInterval * rounds)

variable {q : Wait} {deadline rounds clock clock' : Nat} {w w' : World ε}
  {p p' : Work ε (Except Failure (List Diagnostic))} {started : List (Work ε Bool)}

theorem Enough.later (h : Enough deadline rounds clock) (hclock : clock ≤ clock') :
    Enough deadline rounds clock' := by
  unfold Enough at *
  omega

theorem enough_first (timeout clock : Nat) :
    Enough (clock + timeout) (timeout / pollInterval + 2) clock := by
  unfold Enough pollInterval
  omega

/-- After a sleep there is one round less, and time has gone on by as much, or is over. -/
theorem Enough.after_sleep (h : Enough deadline (rounds + 1) clock) (hclock : clock < deadline)
    (hdue : min deadline (clock + pollInterval) ≤ clock') : Enough deadline rounds clock' := by
  unfold Enough pollInterval at *
  omega

/-- Where a wait stands that has begun; it has looked at the cache of a world that has `Looked`, so
many of its own steps ago. -/
inductive Stands (i : Nat) (q : Wait) (deadline : Nat) (Looked : Nat → World ε → Prop)
    (w : World ε) : Work ε (Except Failure (List Diagnostic)) → Prop
  | round {rounds : Nat} (h : Enough deadline rounds w.clock) :
      Stands i q deadline Looked w (q.polls i deadline rounds)
  | looked {rounds : Nat} {r : World ε} (hr : Looked 0 r)
      (h : Enough deadline (rounds + 1) w.clock) :
      Stands i q deadline Looked w (q.asksAlive i deadline rounds (q.sees i r))
  | asked {rounds : Nat} {r : World ε} {alive : Bool} (hr : Looked 1 r)
      (h : Enough deadline (rounds + 1) w.clock)
      (halive : alive = false → (w.connection i).isAlive = false) :
      Stands i q deadline Looked w (q.readsClock i deadline rounds (q.sees i r) alive)
  | sleeps {rounds due : Nat} (h : ∀ t, due ≤ t → Enough deadline rounds t)
      (hdue : due ≤ min deadline (w.clock + pollInterval)) :
      Stands i q deadline Looked w (q.sleeps i deadline rounds due)
  | answered {r : World ε} (hr : Looked 2 r)
      (h : DiagnosticsCache.isFresh (q.sees i r) q.floor = true ∨
        (w.connection i).isAlive = false ∨ deadline ≤ w.clock) :
      Stands i q deadline Looked w (pure (.ok (answer (q.sees i r))))
  | cancelled : Stands i q deadline Looked w (pure (.error .cancelled))

variable {Looked Looked' : Nat → World ε → Prop}

/-- What a wait has seen stays seen, and what it relies on stays so. -/
theorem Stands.later (h : Stands i q deadline Looked w p)
    (hlooked : ∀ n r, Looked n r → Looked' n r) (hi : i < w.connections.length)
    (hw : Later i w w') : Stands i q deadline Looked' w' p := by
  have hclock := hw.clock
  cases h with
  | round h => exact .round (h.later hclock)
  | looked hr h => exact .looked (hlooked _ _ hr) (h.later hclock)
  | asked hr h halive =>
    exact .asked (hlooked _ _ hr) (h.later hclock) fun ha => hw.ended hi (halive ha)
  | sleeps h hdue => exact .sleeps h (by omega)
  | answered hr h =>
    exact .answered (hlooked _ _ hr)
      (h.imp_right (.imp (hw.ended hi) fun hd => Nat.le_trans hd hclock))
  | cancelled => exact .cancelled

/-- A sleep ends when the wait is cancelled, or when it is due. -/
theorem step_sleeps {due : Nat} (h : Step w (q.sleeps i deadline rounds due) w' p' started) :
    w' = w ∧ ((w.isCancelled q.token = true ∧ p' = pure (.error .cancelled)) ∨
      (due ≤ w.clock ∧ p' = q.polls i deadline rounds)) := by
  obtain ⟨b, hs, rfl, -⟩ := step_await_bind.1 h
  split at hs
  · next hcancelled =>
    cases hs
    exact ⟨rfl, .inl ⟨hcancelled, rfl⟩⟩
  · split at hs
    · next hdue =>
      cases hs
      exact ⟨rfl, .inr ⟨hdue, rfl⟩⟩
    · cases hs

/-- A step looks at the cache, or leaves the wait with what it has seen, one step more ago. -/
theorem Stands.step {L : Nat → World ε → Prop} (h : Stands i q deadline Looked w p)
    (hlooked : ∀ n r, Looked n r → L (n + 1) r) (hs : Step w p w' p' started) :
    w' = w ∧ ((∃ rounds, p = q.polls i deadline (rounds + 1) ∧
        Enough deadline (rounds + 1) w.clock ∧
        p' = q.asksAlive i deadline rounds (q.sees i w)) ∨
      Stands i q deadline L w p') := by
  -- a round looks at the cache, asks if the connection lives, and then sleeps or answers
  cases h with
  | @round rounds h =>
    match rounds, h with
    | rounds + 1, h =>
      rw [polls_succ] at hs ⊢
      obtain ⟨hw, rfl, -⟩ := step_act_bind.1 hs
      exact ⟨hw, .inl ⟨rounds, rfl, h, rfl⟩⟩
  | looked hr h =>
    obtain ⟨hw, rfl, -⟩ := step_act_bind.1 hs
    exact ⟨hw, .inr (.asked (hlooked _ _ hr) h id)⟩
  | @asked rounds r alive hr h halive =>
    obtain ⟨hw, rfl, -⟩ := step_act_bind.1 hs
    refine ⟨hw, .inr ?_⟩
    dsimp only
    split
    · next hover =>
      simp only [Bool.or_eq_true, Bool.not_eq_true', decide_eq_true_eq, or_assoc] at hover
      exact .answered (hlooked _ _ hr) (hover.imp_right (.imp_left halive))
    · next hover =>
      simp only [Bool.or_eq_true, decide_eq_true_eq, not_or, Nat.not_le] at hover
      exact .sleeps (fun t ht => h.after_sleep hover.2 ht) (Nat.le_refl _)
  | sleeps h hdue =>
    obtain ⟨hw, ⟨-, rfl⟩ | ⟨hwoken, rfl⟩⟩ := step_sleeps hs
    · exact ⟨hw, .inr .cancelled⟩
    · exact ⟨hw, .inr (.round (h _ hwoken))⟩
  | answered => cases hs
  | cancelled => cases hs

/-- The last step of a wait returns what it has seen, or is its cancellation. -/
theorem Stands.last {items : List Diagnostic} (h : Stands i q deadline Looked w p)
    (hs : Step w p w' (pure (.ok items)) started) : ∃ r, Looked 1 r ∧ items = answer (q.sees i r) ∧
      (DiagnosticsCache.isFresh (q.sees i r) q.floor = true ∨
        (w.connection i).isAlive = false ∨ deadline ≤ w.clock) := by
  have hlooked (n : Nat) (r : World ε) (hr : Looked n r) : ∃ m, n + 1 = m + 1 ∧ Looked m r :=
    ⟨n, rfl, hr⟩
  obtain ⟨-, ⟨rounds, -, -, hlast⟩ | hlast⟩ :=
    Stands.step (L := fun n r => ∃ m, n = m + 1 ∧ Looked m r) h hlooked hs
  · cases hlast
  · generalize hp : (pure (.ok items) : Work ε (Except Failure (List Diagnostic))) = p' at hlast
    cases hlast with
    | answered hr h =>
      cases hp
      obtain ⟨m, hm, hr⟩ := hr
      cases hm
      exact ⟨_, hr, rfl, h⟩
    | @round rounds h =>
      match rounds, h with
      | rounds + 1, _ => cases hp
    | _ => cases hp

/-! ### The end of a wait -/

/-- The deadline has come, or the connection has ended. -/
def IsOver (i : Nat) (deadline : Nat) (w : World ε) : Prop :=
  deadline ≤ w.clock ∨ (w.connection i).isAlive = false

theorem IsOver.later (h : IsOver i deadline w) (hi : i < w.connections.length)
    (hw : Later i w w') : IsOver i deadline w' :=
  h.imp (fun hd => Nat.le_trans hd hw.clock) (hw.ended hi)

/-- How many steps a wait that is over still takes, at most. -/
inductive Left (i : Nat) (q : Wait) (deadline : Nat) (w : World ε) :
    Work ε (Except Failure (List Diagnostic)) → Nat → Prop
  | returned {items : List Diagnostic} {n : Nat} : Left i q deadline w (pure (.ok items)) n
  | lastClock {rounds n : Nat} {cached : Option CachedDiagnostics} {alive : Bool}
      (h : alive = false ∨ deadline ≤ w.clock) (hn : 1 ≤ n) :
      Left i q deadline w (q.readsClock i deadline rounds cached alive) n
  | lastAlive {rounds n : Nat} {cached : Option CachedDiagnostics} (hn : 2 ≤ n) :
      Left i q deadline w (q.asksAlive i deadline rounds cached) n
  | lastRound {rounds n : Nat} (hn : 3 ≤ n) : Left i q deadline w (q.polls i deadline rounds) n
  | sleeps {rounds due n : Nat} (hdue : due ≤ min deadline (w.clock + pollInterval)) (hn : 4 ≤ n) :
      Left i q deadline w (q.sleeps i deadline rounds due) n
  | missed {rounds n : Nat} {cached : Option CachedDiagnostics} {alive : Bool} (hn : 5 ≤ n) :
      Left i q deadline w (q.readsClock i deadline rounds cached alive) n

theorem Stands.left (h : Stands i q deadline Looked w p) (hgoing : p.result? = none) :
    Left i q deadline w p 5 := by
  cases h with
  | round => exact .lastRound (by omega)
  | looked => exact .lastAlive (by omega)
  | asked => exact .missed (Nat.le_refl _)
  | sleeps _ hdue => exact .sleeps hdue (by omega)
  | answered => cases hgoing
  | cancelled => cases hgoing

theorem Left.later {n : Nat} (h : Left i q deadline w p n) (hw : Later i w w') :
    Left i q deadline w' p n := by
  have hclock := hw.clock
  cases h with
  | returned => exact .returned
  | lastClock h hn => exact .lastClock (h.imp_right fun hd => Nat.le_trans hd hclock) hn
  | lastAlive hn => exact .lastAlive hn
  | lastRound hn => exact .lastRound hn
  | sleeps hdue hn => exact .sleeps (by omega) hn
  | missed hn => exact .missed hn

/-- With every step of a wait that is over one less is left, unless it is cancelled. -/
theorem Left.step {n : Nat} (h : Left i q deadline w p n) (hover : IsOver i deadline w)
    (hs : Step w p w' p' started) :
    w' = w ∧ ((w.isCancelled q.token = true ∧ p' = pure (.error .cancelled)) ∨
      ∃ m, n = m + 1 ∧ Left i q deadline w p' m) := by
  have hless {k : Nat} (hn : k + 1 ≤ n) : n = n - 1 + 1 ∧ k ≤ n - 1 := by omega
  -- every step but a cancellation is one of those that are left
  cases h with
  | returned => cases hs
  | lastClock h hn =>
    obtain ⟨hw, rfl, -⟩ := step_act_bind.1 hs
    refine ⟨hw, .inr ⟨n - 1, (hless hn).1, ?_⟩⟩
    rw [if_pos (by rcases h with h | h <;> simp [h])]
    exact .returned
  | lastAlive hn =>
    obtain ⟨hw, rfl, -⟩ := step_act_bind.1 hs
    exact ⟨hw, .inr ⟨n - 1, (hless hn).1, .lastClock (Or.symm hover) (hless hn).2⟩⟩
  | @lastRound rounds n hn =>
    cases rounds with
    | zero =>
      obtain ⟨hw, rfl, -⟩ := step_act_bind.1 hs
      exact ⟨hw, .inr ⟨n - 1, (hless hn).1, .returned⟩⟩
    | succ rounds =>
      rw [polls_succ] at hs
      obtain ⟨hw, rfl, -⟩ := step_act_bind.1 hs
      exact ⟨hw, .inr ⟨n - 1, (hless hn).1, .lastAlive (hless hn).2⟩⟩
  | sleeps hdue hn =>
    obtain ⟨hw, hcancelled | ⟨-, rfl⟩⟩ := step_sleeps hs
    · exact ⟨hw, .inl hcancelled⟩
    · exact ⟨hw, .inr ⟨n - 1, (hless hn).1, .lastRound (hless hn).2⟩⟩
  | missed hn =>
    obtain ⟨hw, rfl, -⟩ := step_act_bind.1 hs
    refine ⟨hw, .inr ⟨n - 1, (hless hn).1, ?_⟩⟩
    split
    · exact .returned
    · exact .sleeps (Nat.le_refl _) (hless hn).2

/-- What becomes of a wait that is over, in so many of its steps. -/
inductive Finishes (q : Wait) (deadline : Nat) (steps : List (World ε × World ε)) (w : World ε) :
    Work ε (Except Failure (List Diagnostic)) → Prop
  | returns {items : List Diagnostic} : Finishes q deadline steps w (pure (.ok items))
  | cancelled {s : World ε × World ε} (hs : s ∈ steps) (h : s.1.isCancelled q.token = true) :
      Finishes q deadline steps w (pure (.error .cancelled))
  /-- Nothing holds it up for longer than until its deadline or the next round. -/
  | goesOn {p : Work ε (Except Failure (List Diagnostic))} (hfew : steps.length < 5)
      (h : ∀ w' : World ε, min deadline (w.clock + pollInterval) ≤ w'.clock →
        p.canMove w' = true) : Finishes q deadline steps w p

theorem Left.finishes {n : Nat} {steps : List (World ε × World ε)}
    (h : Left i q deadline w p n) (hn : steps.length + n = 5) :
    Finishes q deadline steps w p := by
  cases h with
  | returned => exact .returns
  | lastClock _ hpos => exact .goesOn (by omega) fun _ _ => rfl
  | lastAlive hpos => exact .goesOn (by omega) fun _ _ => rfl
  | @lastRound rounds n hpos =>
    refine .goesOn (by omega) fun _ _ => ?_
    cases rounds <;> rfl
  | sleeps hdue hpos =>
    refine .goesOn (by omega) fun w' hw' => ?_
    change Option.isSome (ite ..) = true
    split
    · rfl
    · rw [if_pos (Nat.le_trans hdue hw')]
      rfl
  | missed hpos => exact .goesOn (by omega) fun _ _ => rfl

/-- A wait that is over returns within five steps of its own, unless it is cancelled at one of
them. -/
theorem Stands.finishes {steps : List (World ε × World ε)} (h : Stands i q deadline Looked w p)
    (hgoing : p.result? = none) (hi : i < w.connections.length) (hover : IsOver i deadline w)
    (ht : p.Traces (Later i) w steps started p' w') : Finishes q deadline steps w' p' := by
  have hleft : (p' = pure (.error .cancelled) ∧ ∃ s ∈ steps, s.1.isCancelled q.token = true) ∨
      ∃ n, steps.length + n = 5 ∧ Left i q deadline w' p' n ∧
        i < w'.connections.length ∧ IsOver i deadline w' := by
    induction ht with
    | start => exact .inr ⟨5, rfl, h.left hgoing, hi, hover⟩
    | others _ hw ih =>
      refine ih.imp_right fun ⟨n, hn, hleft, hi, hover⟩ => ?_
      exact ⟨n, hn, hleft.later hw, hw.there hi, hover.later hi hw⟩
    | @step steps started new p₁ p₂ w₁ w₂ _ hs ih =>
      rcases ih with ⟨rfl, -⟩ | ⟨n, hn, hleft, hi, hover⟩
      · cases hs
      · obtain ⟨rfl, ⟨hcancelled, rfl⟩ | ⟨m, rfl, hleft'⟩⟩ := hleft.step hover hs
        · exact .inl ⟨rfl, _, List.mem_append_right _ (List.mem_singleton_self _), hcancelled⟩
        · exact .inr ⟨m, by simp; omega, hleft', hi, hover⟩
  rcases hleft with ⟨rfl, s, hs, hcancelled⟩ | ⟨n, hn, hleft, -, -⟩
  · exact .cancelled hs hcancelled
  · exact hleft.finishes hn

end Wait

end LspClient.Diagnostics
