import LspClient.Proofs.Document.Manned
import LspClient.Proofs.Program.Ends

/-!
# Locks are exclusive

Any number of callers ask for the locks of any URIs, hold them for whatever they do, give up, and
drop them, in any order. The table of locks has an entry for a URI as long as somebody is in line
for it, and everybody in line is on the lock of that entry (`Exclusive`). The operations on
documents are such callers.
-/

namespace LspClient.Document

open Program Locks
open Crew (Rules Run Move)

/-! ### Callers -/

variable {ε α ο : Type} {i : Nat} {w w' : World ε} {turns : Actor → Option Turn} {l l' : Locks}
  {a : Actor} {uri : String}

/-- The locks of a connection stay as they are. -/
structure SameLocks (i : Nat) (w w' : World ε) : Prop where
  there : i < w.connections.length → i < w'.connections.length
  locks : i < w.connections.length → (w'.connection i).locks = (w.connection i).locks

theorem SameLocks.refl (w : World ε) : SameLocks i w w := ⟨fun hi => hi, fun _ => rfl⟩

/-- One who asks for the lock of a URI, to work while it is held. -/
structure Caller (ο : Type) where
  uri : String
  token : Token
  work : ο

abbrev Result (α : Type) := Except Failure α

abbrev LockCrew (ε α ο : Type) := Crew (World ε) (Caller ο) (Result α)

namespace Caller

def program (i : Nat) (works : ο → Work ε (Result α)) (x : Caller ο) : Work ε (Result α) :=
  withLock i x.uri x.token (works x.work)

/-- The end of a call. -/
def drops (i ticket : Nat) (result : Result α) : Work ε (Result α) := do
  Program.update (World.onConnection i (releaseLock ticket))
  return result

/-- The wait for the lock, and what comes after it. -/
def awaits (i : Nat) (works : ο → Work ε (Result α)) (x : Caller ο) (ticket : Nat) :
    Work ε (Result α) := do
  match ← Work.within (Limit.ofToken x.token) (Connection.stepOn i (acquireLock ticket)) with
  | .error e => drops i ticket (.error e)
  | .ok () => do drops i ticket (← works x.work)

theorem program_eq (works : ο → Work ε (Result α)) (x : Caller ο) :
    x.program i works = Work.onConnection i (joinLock x.uri) >>= x.awaits i works := rfl

/-- Where a caller stands, by its place in line. -/
inductive Stands (i : Nat) (works : ο → Work ε (Result α)) (x : Caller ο) :
    Option Turn → Work ε (Result α) → Prop
  | asks : Stands i works x none (x.program i works)
  | waits (ticket : Nat) : Stands i works x (some ⟨x.uri, ticket, false⟩) (x.awaits i works ticket)
  | holds (ticket : Nat) {p : Work ε (Result α)} (h : Keeps (SameLocks i) p) :
      Stands i works x (some ⟨x.uri, ticket, true⟩) (p >>= drops i ticket)
  | gaveUp (ticket : Nat) (e : Failure) :
      Stands i works x (some ⟨x.uri, ticket, false⟩) (drops i ticket (.error e))
  | ended (result : Result α) : Stands i works x none (pure result)

/-- What a step of somebody in line, or not in line, does to the locks and to its place. -/
inductive Turns (uri : String) : Option Turn → Locks → Option Turn → Locks → Prop
  | joins {l : Locks} : Turns uri none l (some ⟨uri, (l.join uri).1, false⟩) (l.join uri).2
  | acquires {ticket : Nat} {l l' : Locks} (h : l.acquire ticket = some l') :
      Turns uri (some ⟨uri, ticket, false⟩) l (some ⟨uri, ticket, true⟩) l'
  | stays {place : Option Turn} {l : Locks} : Turns uri place l place l
  | drops {ticket : Nat} {held : Bool} {l : Locks} :
      Turns uri (some ⟨uri, ticket, held⟩) l none (l.release ticket)

variable {works : ο → Work ε (Result α)} {x : Caller ο} {place : Option Turn}
  {p p' : Work ε (Result α)} {started : List (Work ε Bool)}

theorem step_drops {result : Result α} (hi : i < w.connections.length)
    (hs : Step w (drops i ticket result) w' p' started) : p' = pure result ∧ started = [] ∧
      i < w'.connections.length ∧
      (w'.connection i).locks = (w.connection i).locks.release ticket := by
  obtain ⟨rfl, rfl, rfl⟩ := step_act_bind.1 hs
  refine ⟨rfl, rfl, by simpa [World.onConnection] using hi, ?_⟩
  rw [World.onConnection, World.connection_setConnection hi]
  rfl

theorem Stands.step (hworks : ∀ o, Keeps (SameLocks i) (works o)) (h : Stands i works x place p)
    (hi : i < w.connections.length) (hs : Step w p w' p' started) :
    ∃ place', Stands i works x place' p' ∧
      Turns x.uri place (w.connection i).locks place' (w'.connection i).locks ∧
      i < w'.connections.length ∧ ∀ q ∈ started, Keeps (SameLocks i) q := by
  -- a request asks for the lock, waits in line, holds it and drops it, or gives up in line
  cases h with
  | asks =>
    rw [program_eq] at hs
    obtain ⟨rfl, rfl, rfl⟩ := step_act_bind.1 hs
    refine ⟨_, .waits _, ?_, by simpa using hi, by simp⟩
    rw [World.connection_setConnection hi]
    exact .joins
  | waits ticket =>
    obtain ⟨r, hr, rfl, rfl⟩ := step_await_bind.1 hs
    split at hr
    · cases hr
      exact ⟨_, .gaveUp ticket _, .stays, hi, by simp⟩
    · split at hr
      · next a w₁ hacquire =>
        cases hr
        obtain ⟨⟨u, c⟩, hc, heq⟩ := Option.map_eq_some_iff.1 hacquire
        obtain ⟨l', hl', heq'⟩ := Option.map_eq_some_iff.1 hc
        cases heq
        cases heq'
        refine ⟨_, .holds ticket (hworks x.work), ?_, by simpa using hi, by simp⟩
        rw [World.connection_setConnection hi]
        exact .acquires hl'
      · cases hr
  | holds ticket hp =>
    rcases step_bind hs with ⟨result, rfl, hdrops⟩ | ⟨q, rfl, hq⟩
    · obtain ⟨rfl, rfl, hthere, hlocks⟩ := step_drops hi hdrops
      exact ⟨none, .ended _, hlocks ▸ .drops, hthere, by simp⟩
    · obtain ⟨hsame, hq', hstarted⟩ := hp.step .refl hq
      refine ⟨_, .holds ticket hq', ?_, hsame.there hi, hstarted⟩
      rw [hsame.locks hi]
      exact .stays
  | gaveUp ticket e =>
    obtain ⟨rfl, rfl, hthere, hlocks⟩ := step_drops hi hs
    exact ⟨none, .ended _, hlocks ▸ .drops, hthere, by simp⟩
  | ended result => cases hs

/-- A caller that cannot go on is over, holds the lock, or waits for it. -/
theorem Stands.cannot_move (h : Stands i works x place p) (hblocked : p.canMove w = false) :
    (∃ result, p = pure result) ∨ ∃ n, place = some n ∧
      (n.held = true ∨ (w.connection i).locks.acquire n.ticket = none) := by
  cases h with
  | asks => cases hblocked
  | waits ticket =>
    refine .inr ⟨_, rfl, .inr ?_⟩
    change Option.isSome (ite ..) = false at hblocked
    split at hblocked
    · cases hblocked
    · split at hblocked
      · cases hblocked
      · next hnone =>
        obtain hnone := Option.map_eq_none_iff.1 hnone
        exact Option.map_eq_none_iff.1 hnone
  | holds ticket hp => exact .inr ⟨_, rfl, .inl rfl⟩
  | gaveUp => cases hblocked
  | ended result => exact .inl ⟨result, rfl⟩

end Caller

theorem Manned.turn {place place' : Option Turn} (hm : Manned turns l) (ha : turns a = place)
    (h : Caller.Turns uri place l place' l') : Manned (Function.update turns a place') l' := by
  cases h with
  | joins =>
    have hticket : (l.join uri).1 = l.nextTicket := (Locks.lockOf_spec l uri).2.1
    rw [hticket]
    exact hm.join ha uri
  | acquires hs => exact hm.acquire ha hs
  | stays =>
    rw [← ha, Function.update_eq_self]
    exact hm
  | drops => exact hm.release ha

/-! ### Every run -/

variable {works : ο → Work ε (Result α)} {c c' : LockCrew ε α ο} {places : Actor → Option Turn}
  {moments : List (Crew.Moment (World ε))}

/-- Whatever goes on beside the callers leaves the locks to them. -/
def lockRules (i : Nat) (works : ο → Work ε (Result α)) :
    Rules (World ε) (Caller ο) (Result α) where
  program := Caller.program i works
  Serves := Keeps (SameLocks i)
  Outside := SameLocks i

structure InLine (i : Nat) (works : ο → Work ε (Result α)) (places : Actor → Option Turn)
    (c : LockCrew ε α ο) : Prop where
  there : i < c.state.connections.length
  stands : ∀ k x p, c.clients[k]? = some (x, p) → Caller.Stands i works x (places (.client k)) p
  callers : ∀ a n, places a = some n → ∃ k, a = .client k ∧ k < c.clients.length
  services : ∀ e ∈ c.services, Keeps (SameLocks i) e.1 ∧ Keeps (SameLocks i) e.2
  manned : Manned places (c.state.connection i).locks

/-- Nobody in line has taken a step. -/
theorem InLine.aside (h : InLine i works places c) (hs : SameLocks i c.state c'.state)
    (hclients : c'.clients = c.clients)
    (hservices : ∀ e ∈ c'.services, Keeps (SameLocks i) e.1 ∧ Keeps (SameLocks i) e.2) :
    InLine i works places c' where
  there := hs.there h.there
  stands := hclients ▸ h.stands
  callers := hclients ▸ h.callers
  services := hservices
  manned := by
    rw [hs.locks h.there]
    exact h.manned

theorem keeps_fresh {started : List (Work ε Bool)} (h : ∀ q ∈ started, Keeps (SameLocks i) q) :
    ∀ e ∈ Crew.fresh started, Keeps (SameLocks i) e.1 ∧ Keeps (SameLocks i) e.2 := by
  intro e he
  obtain ⟨q, hq, rfl⟩ := List.mem_map.1 he
  exact ⟨h q hq, h q hq⟩

theorem InLine.move (hworks : ∀ o, Keeps (SameLocks i) (works o)) (h : InLine i works places c)
    (hmove : Move (lockRules i works) c a c') : ∃ places', InLine i works places' c' := by
  cases hmove with
  | enter x =>
    refine ⟨places, {
      there := h.there
      stands := fun k y p hk => ?_
      callers := fun a n hn => ?_
      services := h.services
      manned := h.manned }⟩
    · rcases Nat.lt_or_ge k c.clients.length with hlt | hge
      · rw [List.getElem?_append_left hlt] at hk
        exact h.stands k y p hk
      · have hlen := (List.getElem?_eq_some_iff.1 hk).1
        rw [List.length_append, List.length_singleton] at hlen
        obtain rfl : k = c.clients.length := by omega
        rw [List.getElem?_concat_length] at hk
        cases hk
        -- all places belong to clients that entered before
        have hnone : places (.client c.clients.length) = none := by
          by_contra hsome
          obtain ⟨n, hn⟩ := Option.ne_none_iff_exists'.1 hsome
          obtain ⟨k, heq, hlt⟩ := h.callers _ n hn
          cases heq
          exact Nat.lt_irrefl _ hlt
        rw [hnone]
        exact .asks
    · obtain ⟨k, rfl, hlt⟩ := h.callers a n hn
      exact ⟨k, rfl, by simp; omega⟩
  | serve hp =>
    exact ⟨places, h.aside (.refl _) rfl
      (List.forall_mem_append.2 ⟨h.services, keeps_fresh (List.forall_mem_singleton.2 hp)⟩)⟩
  | @client k x p p' s started hk hs =>
    obtain ⟨place', hp', hturn, hthere, hstarted⟩ := (h.stands k x p hk).step hworks h.there hs
    have hlt := (List.getElem?_eq_some_iff.1 hk).1
    refine ⟨Function.update places (.client k) place', {
      there := hthere
      stands := fun k' y q hq => ?_
      callers := fun a n hn => ?_
      services := List.forall_mem_append.2 ⟨h.services, keeps_fresh hstarted⟩
      manned := h.manned.turn rfl hturn }⟩
    · by_cases hkk : k' = k
      · subst hkk
        rw [List.getElem?_set_self hlt] at hq
        cases hq
        rw [Function.update_self]
        exact hp'
      · rw [List.getElem?_set_ne (Ne.symm hkk)] at hq
        rw [Function.update_of_ne (by simpa using hkk)]
        exact h.stands k' y q hq
    · rw [List.length_set]
      by_cases ha : a = .client k
      · exact ⟨k, ha, hlt⟩
      · rw [Function.update_of_ne ha] at hn
        exact h.callers a n hn
  | service hk hs =>
    -- services leave the locks alone, so only what they are about to do changes
    obtain ⟨hbody, hp⟩ := h.services _ (List.mem_of_getElem? hk)
    obtain ⟨hsame, hp', hstarted⟩ := hp.step .refl hs
    refine ⟨places, h.aside hsame rfl (List.forall_mem_append.2 ⟨fun e he => ?_,
      keeps_fresh hstarted⟩)⟩
    rcases List.mem_or_eq_of_mem_set he with he | rfl
    · exact h.services e he
    · exact ⟨hbody, hp'⟩
  | again hk =>
    obtain ⟨hbody, -⟩ := h.services _ (List.mem_of_getElem? hk)
    refine ⟨places, h.aside (.refl _) rfl fun e he => ?_⟩
    rcases List.mem_or_eq_of_mem_set he with he | rfl
    · exact h.services e he
    · exact ⟨hbody, hbody⟩
  | outside hs => exact ⟨places, h.aside hs rfl h.services⟩

theorem exists_inLine (hworks : ∀ o, Keeps (SameLocks i) (works o))
    (hi : i < w.connections.length) (hempty : (w.connection i).locks = .empty)
    (run : Run (lockRules i works) (Crew.ofState w) moments c) :
    ∃ places, InLine i works places c := by
  induction run with
  | nil =>
    refine ⟨fun _ => none, hi, nofun, nofun, nofun, ?_⟩
    change Manned _ (w.connection i).locks
    rw [hempty]
    exact manned_empty
  | move _ hmove ih =>
    obtain ⟨places, h⟩ := ih
    exact h.move hworks hmove

/-- What is true at every moment of the callers, of whom each has its place in line. -/
structure Exclusive (i : Nat) (works : ο → Work ε (Result α)) (c : LockCrew ε α ο)
    (places : Nat → Option Turn) : Prop where
  stands : ∀ k x p, c.clients[k]? = some (x, p) → Caller.Stands i works x (places k) p
  callers : ∀ k n, places k = some n → k < c.clients.length
  one_holder : ∀ k k' n n', places k = some n → places k' = some n' → n.uri = n'.uri →
    n.held = true → n'.held = true → k = k'
  /-- Who is in line has a handle of its own on the lock that the table gives. -/
  on_entry : ∀ k n, places k = some n → ∃ h,
    (c.state.connection i).locks.handle? n.ticket = some h ∧ h.uri = n.uri ∧
      (c.state.connection i).locks.table.get? n.uri = some h.lock ∧
      ∀ k' n', places k' = some n' → n'.ticket = n.ticket → k' = k
  own_lock : ∀ uri uri' lock, (c.state.connection i).locks.table.get? uri = some lock →
    (c.state.connection i).locks.table.get? uri' = some lock → uri = uri'
  /-- Nobody waits but for those who came before for the same URI. -/
  unblocked : ∀ k x p, c.clients[k]? = some (x, p) → p.canMove c.state = false →
    (∃ result, p = pure result) ∨ ∃ n, places k = some n ∧ (n.held = true ∨
      ∃ k' n', places k' = some n' ∧ n'.uri = n.uri ∧ n'.ticket < n.ticket)
  swept : ∀ uri, (∀ k n, places k = some n → n.uri ≠ uri) →
    (c.state.connection i).locks.table.get? uri = none

theorem exclusive (hworks : ∀ o, Keeps (SameLocks i) (works o))
    (hi : i < w.connections.length) (hempty : (w.connection i).locks = .empty)
    (run : Run (lockRules i works) (Crew.ofState w) moments c) :
    ∃ places, Exclusive i works c places := by
  obtain ⟨places, h⟩ := exists_inLine hworks hi hempty run
  have hclient {a : Actor} {n : Turn} (hn : places a = some n) : ∃ k, a = .client k := by
    obtain ⟨k, hk, -⟩ := h.callers a n hn
    exact ⟨k, hk⟩
  refine ⟨fun k => places (.client k), {
    stands := h.stands
    callers := fun k n hn => ?_
    one_holder := fun k k' n n' hn hn' huri hheld hheld' => ?_
    on_entry := fun k n hn => ?_
    own_lock := fun uri uri' lock hlock hlock' => ?_
    unblocked := fun k x p hk hblocked => ?_
    swept := fun uri hnone => h.manned.entry_none fun a n hn => ?_ }⟩
  · obtain ⟨k', heq, hlt⟩ := h.callers _ n hn
    cases heq
    exact hlt
  · exact Actor.client.inj (h.manned.holder_unique hn hn' huri hheld hheld')
  · obtain ⟨h₀, hhandle, -, huri, hentry⟩ := h.manned.handle hn
    exact ⟨h₀, hhandle, huri, hentry, fun k' n' hn' hticket =>
      Actor.client.inj (h.manned.unique _ _ _ _ hn' hn hticket)⟩
  · exact (Prod.mk.inj (h.manned.tidy.uri_eq (Table.mem_of_get? hlock)
      (Table.mem_of_get? hlock') rfl)).1
  · refine ((h.stands k x p hk).cannot_move hblocked).imp_right ?_
    rintro ⟨n, hn, hheld | hwaits⟩
    · exact ⟨n, hn, .inl hheld⟩
    -- who waits for the lock has someone ahead in the same line
    · obtain ⟨b, m, hm, huri, hlt⟩ := h.manned.exists_ahead hn hwaits
      obtain ⟨k', rfl⟩ := hclient hm
      exact ⟨n, hn, .inr ⟨k', m, hm, huri, hlt⟩⟩
  · obtain ⟨k, rfl⟩ := hclient hn
    exact hnone k n hn

/-! ### The operations on documents -/

section Operations

open Connection (Aside Posts)

variable {path : Path}

theorem sameLocks_of_eq (hlength : w'.connections.length = w.connections.length)
    (hlocks : (w'.connection i).locks = (w.connection i).locks) : SameLocks i w w' :=
  ⟨fun hi => hlength ▸ hi, fun _ => hlocks⟩

theorem sameLocks_of_aside (h : Aside i w w') : SameLocks i w w' :=
  sameLocks_of_eq h.length h.apart.mail.locks

theorem sameLocks_of_posts (h : Posts i w w') : SameLocks i w w' := by
  obtain ⟨outbox, writing, heq⟩ := h.connection
  exact sameLocks_of_eq h.length (by rw [heq])

theorem sameLocks_look {β : Type} {view : World ε → β} : Keeps (SameLocks i) (look view) :=
  Keeps.look .refl

theorem sameLocks_update {f : Connection → Connection} (hf : ∀ c, (f c).locks = c.locks) :
    Keeps (SameLocks i) (update (World.onConnection i f) : Work ε Unit) :=
  Keeps.update fun w => ⟨fun hi => by simpa [World.onConnection] using hi, fun hi => by
    rw [World.onConnection, World.connection_setConnection hi, hf]⟩

theorem sameLocks_notify {method : String} {params : Option Json} :
    Keeps (SameLocks i) (Connection.notify i method params : Work ε (Result Unit)) :=
  Connection.keeps_notify (fun _ _ => sameLocks_of_aside) fun _ _ => sameLocks_of_posts

theorem sameLocks_readIfExists :
    Keeps (SameLocks i) (readIfExists path : Work ε (Result (Option String))) :=
  (keeps_readIfExists path).mono fun _ _ => sameLocks_of_aside

theorem sameLocks_sendOpen {content : String} :
    Keeps (SameLocks i) (sendOpen i uri path content : Work ε (Result Unit)) := by
  refine Keeps.bind sameLocks_look fun c => Keeps.bind sameLocks_notify fun r => ?_
  match r with
  | .error e => exact Keeps.pure _
  | .ok () => exact Keeps.bind (sameLocks_update fun _ => rfl) fun _ => Keeps.pure _

theorem sameLocks_push {content : String} :
    Keeps (SameLocks i) (push i uri path content : Work ε Outcome) := by
  refine Keeps.bind (Keeps.bind sameLocks_look fun _ => Keeps.pure _) fun version => ?_
  match version with
  | none => exact Keeps.bind sameLocks_sendOpen fun _ => Keeps.pure _
  | some current =>
    refine Keeps.bind (Keeps.bind sameLocks_notify fun r => ?_) fun _ => Keeps.pure _
    match r with
    | .error e => exact Keeps.pure _
    | .ok () => exact Keeps.bind (sameLocks_update fun _ => rfl) fun _ => Keeps.pure _

/-- What an operation does while it holds the lock of its document. -/
def Ask.locked (i : Nat) (x : Ask × String) : Work ε Outcome :=
  match x.1.operation with
  | .ensureOpen => openLocked i x.2 x.1.path
  | .syncContent content => syncLocked i x.2 x.1.path content
  | .notifySaved => saveLocked i x.2 x.1.path
  | .refresh => refreshLocked i x.2 x.1.path

theorem Ask.program_of_uri {x : Ask} (h : Uri.ofPath x.path = .ok uri) :
    (x.program i : Work ε Outcome) = Caller.program i (Ask.locked i) ⟨uri, x.token, (x, uri)⟩ := by
  unfold Ask.program Caller.program Ask.locked ensureOpen syncContent notifySaved refresh
  rw [h]
  cases x.operation <;> rfl

theorem Ask.sameLocks_locked (x : Ask × String) :
    Keeps (SameLocks i) (Ask.locked i x : Work ε Outcome) := by
  have hversion {uri : String} : Keeps (SameLocks i) (version? i uri : Work ε (Option Int)) :=
    Keeps.bind sameLocks_look fun _ => Keeps.pure _
  unfold Ask.locked
  cases x.1.operation with
  | ensureOpen =>
    refine Keeps.bind hversion fun version => ?_
    match version with
    | some _ => exact Keeps.pure _
    | none =>
      refine Keeps.bind sameLocks_readIfExists fun r => ?_
      match r with
      | .error e => exact Keeps.pure _
      | .ok none => exact Keeps.pure _
      | .ok (some content) => exact Keeps.bind sameLocks_sendOpen fun _ => Keeps.pure _
  | syncContent content =>
    exact Keeps.bind (sameLocks_update fun _ => rfl) fun _ => sameLocks_push
  | notifySaved =>
    refine Keeps.bind hversion fun version => ?_
    match version with
    | none => exact Keeps.pure _
    | some _ =>
      have hsave {content : Option String} : Keeps (SameLocks i) (do
          return (← sendSave i x.2 content).map fun () => SyncOutcome.saved : Work ε Outcome) :=
        Keeps.bind sameLocks_notify fun _ => Keeps.pure _
      refine Keeps.bind sameLocks_look fun c => ?_
      change Keeps _ (if c.wantsTextOnSave = true then _ else _)
      split
      · refine Keeps.bind sameLocks_readIfExists fun r => ?_
        match r with
        | .error e => exact Keeps.pure _
        | .ok content => exact hsave
      · exact hsave
  | refresh =>
    refine Keeps.bind sameLocks_readIfExists fun r => ?_
    match r with
    | .error e => exact Keeps.pure _
    | .ok none => exact Keeps.pure _
    | .ok (some content) =>
      refine Keeps.bind sameLocks_push fun r => ?_
      match r with
      | .error e => exact Keeps.pure _
      | .ok outcome =>
        exact Keeps.bind sameLocks_look fun c => Keeps.bind sameLocks_notify fun _ => Keeps.pure _

end Operations

/-! ### Two callers for one URI, and one for another -/

def saving (uri : String) (token : Token) : Caller (Ask × String) :=
  ⟨uri, token, ⟨.notifySaved, ⟨"/a.rs"⟩, token⟩, uri⟩

/-- The second caller waits for the first one; the third does not. -/
def threeCallers : List (Crew.Choice (lockRules 0 (Ask.locked (ε := Unit) 0))) :=
  [.enter (saving "file:///a.rs" Token.never), .enter (saving "file:///a.rs" Token.never),
    .enter (saving "file:///b.rs" Token.never), .client 0, .client 1, .client 2, .client 0,
    .client 1, .client 2]

theorem exclusive_threeCallers :
    (Crew.play threeCallers ([], Crew.ofState Connection.alone)).2.clients.map
        (fun e => e.2.canMove
          (Crew.play threeCallers ([], Crew.ofState Connection.alone)).2.state) =
      [true, false, true] ∧
    ∃ places, Exclusive 0 (Ask.locked 0)
      (Crew.play threeCallers ([], Crew.ofState Connection.alone)).2 places := by
  have hi : 0 < Connection.alone.connections.length := Nat.zero_lt_one
  exact ⟨by decide +kernel, exclusive Ask.sameLocks_locked hi rfl (Crew.run_play threeCallers .nil)⟩

end LspClient.Document
